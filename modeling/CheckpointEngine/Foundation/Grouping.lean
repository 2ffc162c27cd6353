/-
  `Foundation.Grouping`: dictionaries of lists in insertion order, and the
  column-major traversal of ragged rows.
-/
import Mathlib.Data.List.Basic
import Mathlib.Data.List.Perm.Basic
import Mathlib.Data.List.Nodup

set_option autoImplicit false

namespace CheckpointEngine.Foundation

variable {α β κ : Type}

/-- A pairwise fact, place by place. -/
theorem pairwise_of_getElem? {R : α → α → Prop} {xs : List α}
    (h : ∀ (i j : Nat) (x y : α), i < j → xs[i]? = some x → xs[j]? = some y → R x y) :
    xs.Pairwise R := by
  rw [List.pairwise_iff_getElem]
  intro i j hi hj hij
  exact h i j _ _ hij (List.getElem?_eq_getElem hi) (List.getElem?_eq_getElem hj)

theorem pairwise_getElem? {R : α → α → Prop} {xs : List α} (h : xs.Pairwise R) {i j : Nat}
    {x y : α} (hij : i < j) (hx : xs[i]? = some x) (hy : xs[j]? = some y) : R x y := by
  obtain ⟨hi, rfl⟩ := List.getElem?_eq_some_iff.mp hx
  obtain ⟨hj, rfl⟩ := List.getElem?_eq_some_iff.mp hy
  exact List.pairwise_iff_getElem.mp h i j hi hj hij

/-- Of two lists that match place by place, every element of one has a partner in
the other. -/
theorem exists_of_forall₂ {R : α → β → Prop} {xs : List α} {ys : List β}
    (h : List.Forall₂ R xs ys) {x : α} (hx : x ∈ xs) : ∃ y ∈ ys, R x y := by
  induction h with
  | nil => simp at hx
  | cons hhead _ ih =>
      rcases List.mem_cons.mp hx with rfl | hx
      · exact ⟨_, List.mem_cons_self, hhead⟩
      · obtain ⟨y, hy, hR⟩ := ih hx
        exact ⟨y, List.mem_cons_of_mem _ hy, hR⟩

/-- Lists whose parts are the same up to order are the same up to order. -/
theorem flatMap_perm_of_forall₂ {f : α → List κ} {g : β → List κ} {xs : List α} {ys : List β}
    (h : List.Forall₂ (fun x y => (f x).Perm (g y)) xs ys) :
    (xs.flatMap f).Perm (ys.flatMap g) := by
  induction h with
  | nil => exact List.Perm.refl _
  | cons hhead _ ih =>
      rw [List.flatMap_cons, List.flatMap_cons]
      exact hhead.append ih

/-- What is left out by the filter adds nothing. -/
theorem flatMap_filterMap (f : α → Option β) (g : β → List κ) (xs : List α) :
    (xs.filterMap f).flatMap g = xs.flatMap fun x => ((f x).map g).getD [] := by
  induction xs with
  | nil => rfl
  | cons x xs ih =>
      rw [List.filterMap_cons, List.flatMap_cons]
      cases hx : f x with
      | none => exact ih
      | some y =>
          rw [List.flatMap_cons, ih]
          rfl

/-- Pairs of two lists, in the order of the first or of the second. -/
theorem flatMap_map_perm (f : α → β → κ) (xs : List α) (ys : List β) :
    (ys.flatMap fun y => xs.map fun x => f x y).Perm (xs.flatMap fun x => ys.map (f x)) := by
  induction xs with
  | nil => simp
  | cons x xs ih =>
      simp only [List.map_cons, List.flatMap_cons]
      exact (List.map_append_flatMap_perm ys (f x) _).symm.trans (ih.append_left _)

/-! ## Grouping -/

section Grouping

variable [DecidableEq κ]

/-- `groups[k].append(x)` on a `defaultdict(list)`: a new key goes to the end. -/
def appendTo (k : κ) (x : β) : List (κ × List β) → List (κ × List β)
  | [] => [(k, [x])]
  | (k', xs) :: rest =>
      if k' = k then (k', xs ++ [x]) :: rest else (k', xs) :: appendTo k x rest

/-- `for x in items: groups[key(x)].append(value(x))`. -/
def groupBy (key : α → κ) (value : α → β) (items : List α) : List (κ × List β) :=
  items.foldl (fun groups x => appendTo (key x) (value x) groups) []

/-- `groups[k]` of a `defaultdict(list)`. -/
def groupOf (k : κ) : List (κ × List β) → List β
  | [] => []
  | (k', xs) :: rest => if k' = k then xs else groupOf k rest

theorem groupOf_appendTo (k k' : κ) (x : β) (groups : List (κ × List β)) :
    groupOf k (appendTo k' x groups) =
      groupOf k groups ++ if k' = k then [x] else [] := by
  induction groups with
  | nil => by_cases h : k' = k <;> simp [appendTo, groupOf, h]
  | cons group rest ih =>
      obtain ⟨k'', xs⟩ := group
      by_cases hhead : k'' = k'
      · subst k''
        by_cases h : k' = k <;> simp [appendTo, groupOf, h]
      · by_cases h : k'' = k
        · subst k
          have hne : k' ≠ k'' := fun he => hhead he.symm
          simp [appendTo, groupOf, hhead, hne]
        · simp [appendTo, groupOf, hhead, h, ih]

theorem groupOf_foldl (k : κ) (key : α → κ) (value : α → β) (items : List α) :
    ∀ groups : List (κ × List β),
      groupOf k (items.foldl (fun groups x => appendTo (key x) (value x) groups) groups) =
        groupOf k groups ++ (items.filter (key · = k)).map value := by
  induction items with
  | nil => intro groups; simp
  | cons x xs ih =>
      intro groups
      rw [List.foldl_cons, ih, groupOf_appendTo]
      by_cases h : key x = k <;> simp [h]

/-- A group holds the values of its key, in their order. -/
theorem groupOf_groupBy (k : κ) (key : α → κ) (value : α → β) (items : List α) :
    groupOf k (groupBy key value items) = (items.filter (key · = k)).map value := by
  unfold groupBy
  rw [groupOf_foldl]
  rfl

theorem mem_keys_appendTo {k k' : κ} {x : β} {groups : List (κ × List β)} :
    k ∈ (appendTo k' x groups).map Prod.fst ↔ k = k' ∨ k ∈ groups.map Prod.fst := by
  induction groups with
  | nil => simp [appendTo]
  | cons group rest ih =>
      obtain ⟨k'', xs⟩ := group
      by_cases h : k'' = k'
      · simp [appendTo, h]
      · rw [appendTo, if_neg h, List.map_cons, List.mem_cons, ih, List.map_cons, List.mem_cons]
        tauto

theorem appendTo_keys_nodup {k : κ} {x : β} {groups : List (κ × List β)}
    (h : (groups.map Prod.fst).Nodup) : ((appendTo k x groups).map Prod.fst).Nodup := by
  induction groups with
  | nil => simp [appendTo]
  | cons group rest ih =>
      obtain ⟨k', xs⟩ := group
      by_cases hk : k' = k
      · simpa [appendTo, hk] using h
      · rw [List.map_cons, List.nodup_cons] at h
        rw [appendTo, if_neg hk, List.map_cons, List.nodup_cons, mem_keys_appendTo]
        refine ⟨?_, ih h.2⟩
        rintro (he | hmem)
        · exact hk he
        · exact h.1 hmem

/-- A dictionary has each key once. -/
theorem groupBy_keys_nodup (key : α → κ) (value : α → β) (items : List α) :
    ((groupBy key value items).map Prod.fst).Nodup := by
  have hfold : ∀ (xs : List α) (groups : List (κ × List β)), (groups.map Prod.fst).Nodup →
      ((xs.foldl (fun groups x => appendTo (key x) (value x) groups) groups).map
        Prod.fst).Nodup := by
    intro xs
    induction xs with
    | nil => intro groups h; exact h
    | cons x xs ih => intro groups h; exact ih _ (appendTo_keys_nodup h)
  exact hfold items [] List.nodup_nil

theorem mem_keys_groupBy {k : κ} {key : α → κ} {value : α → β} {items : List α} :
    k ∈ (groupBy key value items).map Prod.fst ↔ ∃ x ∈ items, key x = k := by
  have hfold : ∀ (xs : List α) (groups : List (κ × List β)),
      k ∈ (xs.foldl (fun groups x => appendTo (key x) (value x) groups) groups).map Prod.fst ↔
        k ∈ groups.map Prod.fst ∨ ∃ x ∈ xs, key x = k := by
    intro xs
    induction xs with
    | nil => intro groups; simp
    | cons x xs ih =>
        intro groups
        rw [List.foldl_cons, ih, mem_keys_appendTo]
        simp only [List.mem_cons, exists_eq_or_imp, eq_comm (a := k)]
        tauto
  have h := hfold items []
  simpa [groupBy] using h

theorem groupOf_of_mem {k : κ} {xs : List β} {groups : List (κ × List β)}
    (hnodup : (groups.map Prod.fst).Nodup) (h : (k, xs) ∈ groups) : groupOf k groups = xs := by
  induction groups with
  | nil => simp at h
  | cons group rest ih =>
      obtain ⟨k', ys⟩ := group
      rw [List.map_cons, List.nodup_cons] at hnodup
      rcases List.mem_cons.mp h with heq | h
      · obtain ⟨rfl, rfl⟩ := Prod.mk.inj heq
        simp [groupOf]
      · have hne : k' ≠ k := by
          rintro rfl
          exact hnodup.1 (List.mem_map.mpr ⟨(k', xs), h, rfl⟩)
        rw [groupOf, if_neg hne]
        exact ih hnodup.2 h

theorem groupOf_of_notMem {k : κ} {groups : List (κ × List β)}
    (h : k ∉ groups.map Prod.fst) : groupOf k groups = [] := by
  induction groups with
  | nil => rfl
  | cons group rest ih =>
      rw [List.map_cons, List.mem_cons, not_or] at h
      rw [groupOf, if_neg (fun he => h.1 he.symm)]
      exact ih h.2

/-- The entry of a key is exactly the items with that key. -/
theorem mem_groupBy {k : κ} {xs : List β} {key : α → κ} {value : α → β} {items : List α}
    (h : (k, xs) ∈ groupBy key value items) : xs = (items.filter (key · = k)).map value := by
  rw [← groupOf_groupBy]
  exact (groupOf_of_mem (groupBy_keys_nodup key value items) h).symm

theorem appendTo_perm (k : κ) (x : β) (groups : List (κ × List β)) :
    ((appendTo k x groups).flatMap Prod.snd).Perm (x :: groups.flatMap Prod.snd) := by
  induction groups with
  | nil => simp [appendTo]
  | cons group rest ih =>
      obtain ⟨k', xs⟩ := group
      by_cases h : k' = k
      · simp only [appendTo, h, if_true, List.flatMap_cons, List.append_assoc]
        exact List.perm_middle
      · simp only [appendTo, h, if_false, List.flatMap_cons]
        exact (List.Perm.append_left xs ih).trans List.perm_middle

/-- Grouping neither loses nor duplicates a value. -/
theorem groupBy_perm (key : α → κ) (value : α → β) (items : List α) :
    ((groupBy key value items).flatMap Prod.snd).Perm (items.map value) := by
  have hfold : ∀ (xs : List α) (groups : List (κ × List β)),
      ((xs.foldl (fun groups x => appendTo (key x) (value x) groups) groups).flatMap
        Prod.snd).Perm (groups.flatMap Prod.snd ++ xs.map value) := by
    intro xs
    induction xs with
    | nil => intro groups; simp
    | cons x xs ih =>
        intro groups
        refine (ih _).trans ?_
        refine (List.Perm.append_right _ (appendTo_perm _ _ _)).trans ?_
        rw [List.map_cons, List.cons_append]
        exact List.perm_middle.symm
  have h := hfold items []
  simpa [groupBy] using h

/-- Changing the values changes nothing about the keys. -/
theorem groupBy_map {γ : Type} (key : α → κ) (value : α → β) (f : β → γ) (items : List α) :
    groupBy key (fun x => f (value x)) items =
      (groupBy key value items).map fun group => (group.1, group.2.map f) := by
  have happend : ∀ (k : κ) (x : β) (groups : List (κ × List β)),
      appendTo k (f x) (groups.map fun group => (group.1, group.2.map f)) =
        (appendTo k x groups).map fun group => (group.1, group.2.map f) := by
    intro k x groups
    induction groups with
    | nil => rfl
    | cons group rest ih =>
        obtain ⟨k', xs⟩ := group
        by_cases h : k' = k
        · simp [appendTo, h]
        · simp [appendTo, h, ih]
  have hfold : ∀ (xs : List α) (groups : List (κ × List β)),
      xs.foldl (fun groups x => appendTo (key x) (f (value x)) groups)
          (groups.map fun group => (group.1, group.2.map f)) =
        (xs.foldl (fun groups x => appendTo (key x) (value x) groups) groups).map
          fun group => (group.1, group.2.map f) := by
    intro xs
    induction xs with
    | nil => intro groups; rfl
    | cons x xs ih =>
        intro groups
        rw [List.foldl_cons, happend, ih, List.foldl_cons]
  exact hfold items []

end Grouping

/-! ## Column-major traversal -/

/-- The length of the longest row. -/
def width (rows : List (List α)) : Nat := (rows.map List.length).foldr max 0

theorem length_le_width {row : List α} {rows : List (List α)} (h : row ∈ rows) :
    row.length ≤ width rows := by
  induction rows with
  | nil => simp at h
  | cons first rest ih =>
      simp only [width, List.map_cons, List.foldr_cons] at ih ⊢
      rcases List.mem_cons.mp h with rfl | h
      · exact Nat.le_max_left _ _
      · exact Nat.le_trans (ih h) (Nat.le_max_right _ _)

/-- One column: the rows that reach it, in row order. -/
def column (rows : List (List α)) (col : Nat) : List α := rows.filterMap (·[col]?)

/-- All columns, one after the other. -/
def columns (rows : List (List α)) : List α := (List.range (width rows)).flatMap (column rows)

theorem column_cons (row : List α) (rows : List (List α)) (col : Nat) :
    column (row :: rows) col = row[col]?.toList ++ column rows col := by
  cases hcol : row[col]? <;> simp [column, hcol]

theorem range_flatMap_getElem? (row : List α) {n : Nat} (h : row.length ≤ n) :
    (List.range n).flatMap (fun col => row[col]?.toList) = row := by
  induction row generalizing n with
  | nil => simp
  | cons x xs ih =>
      obtain ⟨m, rfl⟩ : ∃ m, n = m + 1 := ⟨n - 1, by simp at h; omega⟩
      rw [List.range_succ_eq_map, List.flatMap_cons, List.flatMap_map]
      have hrest := ih (n := m) (by simpa using h)
      simpa using hrest

theorem columns_perm_of_le (rows : List (List α)) {n : Nat}
    (h : ∀ row ∈ rows, row.length ≤ n) :
    ((List.range n).flatMap (column rows)).Perm rows.flatten := by
  induction rows with
  | nil => simp [column]
  | cons row rest ih =>
      have hsplit : column (row :: rest) = fun col => row[col]?.toList ++ column rest col :=
        funext (column_cons row rest)
      rw [hsplit, List.flatten_cons]
      refine (List.flatMap_append_perm _ _ _).symm.trans ?_
      rw [range_flatMap_getElem? row (h row List.mem_cons_self)]
      exact List.Perm.append_left row (ih fun r hr => h r (List.mem_cons_of_mem _ hr))

/-- The traversal visits every element of every row exactly once. -/
theorem columns_perm (rows : List (List α)) : (columns rows).Perm rows.flatten :=
  columns_perm_of_le rows fun _ => length_le_width

end CheckpointEngine.Foundation
