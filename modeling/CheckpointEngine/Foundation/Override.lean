/-
  `Foundation.Override`: lists in which a later item overrides an earlier one with
  the same key, and dictionaries in the order in which their keys were entered.
-/
import Mathlib.Data.List.Nodup

set_option autoImplicit false

namespace CheckpointEngine.Foundation

variable {α β κ : Type} [DecidableEq κ] {key : α → κ}

/-- The last item with the key. -/
def lastWith (key : α → κ) (k : κ) (items : List α) : Option α :=
  items.reverse.find? fun x => key x = k

theorem lastWith_append (k : κ) (xs ys : List α) :
    lastWith key k (xs ++ ys) = (lastWith key k ys).or (lastWith key k xs) := by
  rw [lastWith, List.reverse_append, List.find?_append, lastWith, lastWith]

theorem lastWith_eq_none {k : κ} {items : List α} :
    lastWith key k items = none ↔ k ∉ items.map key := by
  simp [lastWith]

theorem lastWith_eq_some {k : κ} {items : List α} {x : α} (h : lastWith key k items = some x) :
    x ∈ items ∧ key x = k := by
  have hmem := List.mem_of_find?_eq_some h
  have hkey := List.find?_some h
  exact ⟨List.mem_reverse.mp hmem, by simpa using hkey⟩

/-- Where no key occurs twice, the last item with a key is the only one. -/
theorem lastWith_of_mem {items : List α} (hkeys : (items.map key).Nodup) {x : α}
    (h : x ∈ items) : lastWith key (key x) items = some x := by
  cases hlast : lastWith key (key x) items with
  | none => exact absurd (List.mem_map_of_mem h) (lastWith_eq_none.mp hlast)
  | some y =>
      obtain ⟨hmem, hkey⟩ := lastWith_eq_some hlast
      exact congrArg some (List.inj_on_of_nodup_map hkeys hmem h hkey)

/-- Where no key occurs twice, the order of the items does not matter. -/
theorem lastWith_congr {xs ys : List α} (hkeys : (xs.map key).Nodup)
    (hsame : ∀ x, x ∈ xs ↔ x ∈ ys) (k : κ) : lastWith key k xs = lastWith key k ys := by
  cases hlast : lastWith key k ys with
  | none =>
      rw [lastWith_eq_none] at hlast ⊢
      intro hmem
      obtain ⟨x, hx, rfl⟩ := List.mem_map.mp hmem
      exact hlast (List.mem_map_of_mem ((hsame x).mp hx))
  | some y =>
      obtain ⟨hmem, rfl⟩ := lastWith_eq_some hlast
      exact lastWith_of_mem hkeys ((hsame y).mpr hmem)

theorem lastWith_map {key' : β → κ} (f : α → β) (hf : ∀ x, key' (f x) = key x) (k : κ)
    (items : List α) : lastWith key' k (items.map f) = (lastWith key k items).map f := by
  rw [lastWith, ← List.map_reverse, List.find?_map, lastWith]
  congr 2
  funext x
  simp [hf]

/-- Parts without the key may be left out. -/
theorem lastWith_flatMap_filter {f : β → List α} {p : β → Bool} {k : κ} {parts : List β}
    (h : ∀ part ∈ parts, p part = false → k ∉ (f part).map key) :
    lastWith key k ((parts.filter p).flatMap f) = lastWith key k (parts.flatMap f) := by
  induction parts with
  | nil => rfl
  | cons part rest ih =>
      obtain ⟨hpart, hrest⟩ := List.forall_mem_cons.mp h
      rw [List.flatMap_cons, lastWith_append]
      cases hp : p part with
      | true =>
          rw [List.filter_cons_of_pos hp, List.flatMap_cons, lastWith_append, ih hrest]
      | false =>
          rw [List.filter_cons_of_neg (by simp [hp]), ih hrest, lastWith_eq_none.mpr (hpart hp),
            Option.or_none]

/-- Items with other keys may be left out. -/
theorem lastWith_filter {p : α → Bool} {k : κ} {items : List α}
    (h : ∀ x ∈ items, key x = k → p x = true) :
    lastWith key k (items.filter p) = lastWith key k items := by
  have hparts := @lastWith_flatMap_filter α α κ _ key (fun x => [x]) p k items fun x hx hp => by
    intro hmem
    have hkey : k = key x := by simpa using hmem
    simp [h x hx hkey.symm] at hp
  simpa using hparts

/-! ## Dictionaries in insertion order -/

/-- `dict[key x] = x`: in the place of the old item, or behind all others. -/
def setItem (key : α → κ) (x : α) : List α → List α
  | [] => [x]
  | y :: rest => if key y = key x then x :: rest else y :: setItem key x rest

/-- A new key goes to the end. -/
theorem setItem_of_notMem {x : α} {items : List α} (h : key x ∉ items.map key) :
    setItem key x items = items ++ [x] := by
  induction items with
  | nil => rfl
  | cons y rest ih =>
      obtain ⟨hne, hrest⟩ := not_or.mp (mt List.mem_cons.mpr h)
      rw [setItem, if_neg (Ne.symm hne), ih hrest, List.cons_append]

theorem mem_keys_setItem {x : α} {items : List α} {k : κ} :
    k ∈ (setItem key x items).map key ↔ k = key x ∨ k ∈ items.map key := by
  induction items with
  | nil => simp [setItem]
  | cons y rest ih =>
      rw [setItem]
      split
      · next heq => simp [heq]
      · rw [List.map_cons, List.mem_cons, ih, List.map_cons, List.mem_cons]
        exact or_left_comm

theorem setItem_keys_nodup {x : α} {items : List α} (h : (items.map key).Nodup) :
    ((setItem key x items).map key).Nodup := by
  induction items with
  | nil => simp [setItem]
  | cons y rest ih =>
      obtain ⟨hnotin, hrest⟩ := List.nodup_cons.mp h
      rw [setItem]
      split
      · next heq =>
          rw [heq] at hnotin
          exact List.nodup_cons.mpr ⟨hnotin, hrest⟩
      · next hne =>
          refine List.nodup_cons.mpr ⟨fun hmem => ?_, ih hrest⟩
          rcases mem_keys_setItem.mp hmem with heq | hmem
          · exact hne heq
          · exact hnotin hmem

theorem mem_setItem {x : α} {items : List α} (h : (items.map key).Nodup) {y : α} :
    y ∈ setItem key x items ↔ y = x ∨ y ∈ items ∧ key y ≠ key x := by
  induction items with
  | nil => simp [setItem]
  | cons z rest ih =>
      obtain ⟨hnotin, hrest⟩ := List.nodup_cons.mp h
      rw [setItem]
      split
      · next heq =>
          have hothers : ∀ y ∈ rest, key y ≠ key x := by
            intro y hy hkey
            exact hnotin (List.mem_map.mpr ⟨y, hy, hkey.trans heq.symm⟩)
          constructor
          · intro hmem
            rcases List.mem_cons.mp hmem with rfl | hmem
            · exact .inl rfl
            · exact .inr ⟨List.mem_cons_of_mem _ hmem, hothers y hmem⟩
          · rintro (rfl | ⟨hmem, hne⟩)
            · exact List.mem_cons_self
            · rcases List.mem_cons.mp hmem with rfl | hmem
              · exact absurd heq hne
              · exact List.mem_cons_of_mem _ hmem
      · next hne =>
          rw [List.mem_cons, ih hrest, List.mem_cons]
          constructor
          · rintro (rfl | rfl | ⟨hmem, hkey⟩)
            · exact .inr ⟨.inl rfl, hne⟩
            · exact .inl rfl
            · exact .inr ⟨.inr hmem, hkey⟩
          · rintro (rfl | ⟨rfl | hmem, hkey⟩)
            · exact .inr (.inl rfl)
            · exact .inl rfl
            · exact .inr (.inr ⟨hmem, hkey⟩)

theorem lastWith_setItem {x : α} {items : List α} (h : (items.map key).Nodup) (k : κ) :
    lastWith key k (setItem key x items) =
      (lastWith key k [x]).or (lastWith key k items) := by
  cases hlast : lastWith key k (setItem key x items) with
  | none =>
      have hnotin := lastWith_eq_none.mp hlast
      rw [mem_keys_setItem, not_or] at hnotin
      rw [lastWith_eq_none.mpr hnotin.2, lastWith_eq_none.mpr (by simpa using hnotin.1)]
      rfl
  | some y =>
      obtain ⟨hmem, rfl⟩ := lastWith_eq_some hlast
      rcases (mem_setItem h).mp hmem with rfl | ⟨hmem, hne⟩
      · rw [lastWith_of_mem (by simp) (List.mem_singleton_self y)]
        rfl
      · rw [lastWith_eq_none.mpr (by simpa using hne), lastWith_of_mem h hmem]
        rfl

end CheckpointEngine.Foundation
