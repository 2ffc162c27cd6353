/-
  `Foundation.Rounds`: taking a list apart in rounds, each the longest stretch of
  elements with distinct keys that has room.

  A round may stop early, at a key it already holds, so in general rounds grow and
  shrink.  On a column-major traversal of rows, one key a row, they only get
  shorter (`Rounds.lengths`), and so every place holds an unbroken beginning of
  the rounds (`column_getElem?`).
-/
import CheckpointEngine.Foundation.Grouping
import Mathlib.Data.List.Perm.Subperm

set_option autoImplicit false

namespace CheckpointEngine.Foundation

variable {α κ : Type}

/-! ## Round-robin order -/

/-- Between two occurrences of a key there is every key that comes after them. -/
def RoundRobin (keys : List κ) : Prop :=
  ∀ before k between after, keys = before ++ k :: (between ++ k :: after) →
    ∀ k' ∈ after, k' ∈ k :: between

theorem RoundRobin.of_append {front back : List κ} (h : RoundRobin (front ++ back)) :
    RoundRobin back := by
  intro before k between after hback
  exact h (front ++ before) k between after (by rw [hback, List.append_assoc])

/-- The elements of one column with their places, column first. -/
def cellsAt (rows : List (List α)) (col : Nat) : List (Nat × Nat × α) :=
  rows.zipIdx.filterMap fun (row, r) => row[col]?.map fun x => (col, r, x)

/-- All elements of the rows with their places, in column-major order. -/
def cells (rows : List (List α)) : List (Nat × Nat × α) :=
  (List.range (width rows)).flatMap (cellsAt rows)

theorem mem_cellsAt {rows : List (List α)} {col : Nat} {cell : Nat × Nat × α} :
    cell ∈ cellsAt rows col ↔
      cell.1 = col ∧ ∃ row, rows[cell.2.1]? = some row ∧ row[col]? = some cell.2.2 := by
  unfold cellsAt
  rw [List.mem_filterMap]
  constructor
  · rintro ⟨⟨row, r⟩, hrow, hcell⟩
    obtain ⟨x, hx, rfl⟩ := Option.map_eq_some_iff.mp hcell
    exact ⟨rfl, row, List.mem_zipIdx_iff_getElem?.mp hrow, hx⟩
  · obtain ⟨c, r, x⟩ := cell
    rintro ⟨rfl, row, hrow, hx⟩
    exact ⟨(row, r), List.mem_zipIdx_iff_getElem?.mpr hrow, by simp [hx]⟩

theorem mem_cells {rows : List (List α)} {cell : Nat × Nat × α} :
    cell ∈ cells rows ↔
      ∃ row, rows[cell.2.1]? = some row ∧ row[cell.1]? = some cell.2.2 := by
  unfold cells
  rw [List.mem_flatMap]
  constructor
  · rintro ⟨col, _, hcell⟩
    obtain ⟨rfl, hplace⟩ := mem_cellsAt.mp hcell
    exact hplace
  · rintro ⟨row, hrow, hx⟩
    have hcol : cell.1 < row.length := (List.getElem?_eq_some_iff.mp hx).1
    have hwidth := length_le_width (List.mem_of_getElem? hrow)
    exact ⟨cell.1, List.mem_range.mpr (by omega), mem_cellsAt.mpr ⟨rfl, row, hrow, hx⟩⟩

/-- Forgetting the places gives the traversal. -/
theorem cells_map (rows : List (List α)) : (cells rows).map (·.2.2) = columns rows := by
  have hcolumn : ∀ col, (cellsAt rows col).map (·.2.2) = column rows col := by
    intro col
    unfold cellsAt column
    rw [List.map_filterMap]
    calc rows.zipIdx.filterMap (fun place =>
            (place.1[col]?.map fun x => (col, place.2, x)).map (·.2.2))
        = rows.zipIdx.filterMap (fun place => place.1[col]?) := by
          congr 1
          funext place
          simp [Function.comp_def]
      _ = (rows.zipIdx.map Prod.fst).filterMap (·[col]?) := by
          rw [List.filterMap_map]
          rfl
      _ = rows.filterMap (·[col]?) := by rw [List.zipIdx_map_fst]
  unfold cells columns
  rw [List.map_flatMap]
  exact List.flatMap_congr fun col _ => hcolumn col

/-- The order of the places in the traversal. -/
def Before (first second : Nat × Nat × α) : Prop :=
  first.1 < second.1 ∨ first.1 = second.1 ∧ first.2.1 < second.2.1

theorem cells_sorted (rows : List (List α)) : (cells rows).Pairwise Before := by
  have hcolumn : ∀ col, (cellsAt rows col).Pairwise Before := by
    intro col
    have hrows : rows.zipIdx.Pairwise fun p q => p.2 < q.2 := by
      rw [← List.pairwise_map (R := (· < ·)), List.zipIdx_map_snd]
      exact List.pairwise_lt_range'
    refine hrows.filterMap _ ?_
    rintro ⟨row, r⟩ ⟨row', r'⟩ hlt cell hcell cell' hcell'
    obtain ⟨x, -, rfl⟩ := Option.map_eq_some_iff.mp hcell
    obtain ⟨x', -, rfl⟩ := Option.map_eq_some_iff.mp hcell'
    exact .inr ⟨rfl, hlt⟩
  unfold cells
  rw [List.pairwise_flatMap]
  refine ⟨fun col _ => hcolumn col, ?_⟩
  refine List.pairwise_lt_range.imp ?_
  intro col col' hlt cell hcell cell' hcell'
  obtain ⟨rfl, -⟩ := mem_cellsAt.mp hcell
  obtain ⟨rfl, -⟩ := mem_cellsAt.mp hcell'
  exact .inl hlt

/-- What is before the middle of a sorted list and after its start lies between. -/
theorem mem_between {cells before between after : List (Nat × Nat × α)}
    {first second cell : Nat × Nat × α} (hsorted : cells.Pairwise Before)
    (hcells : cells = before ++ first :: (between ++ second :: after)) (hmem : cell ∈ cells)
    (hfirst : Before first cell) (hsecond : Before cell second) : cell ∈ between := by
  subst hcells
  rw [List.pairwise_append, List.pairwise_cons, List.pairwise_append,
    List.pairwise_cons] at hsorted
  obtain ⟨-, ⟨-, -, ⟨hafter, -⟩, -⟩, hbefore⟩ := hsorted
  simp only [Before] at *
  rcases List.mem_append.mp hmem with hin | hin
  · have := hbefore cell hin first List.mem_cons_self
    omega
  rcases List.mem_cons.mp hin with rfl | hin
  · omega
  rcases List.mem_append.mp hin with hin | hin
  · exact hin
  rcases List.mem_cons.mp hin with rfl | hin
  · omega
  · have := hafter cell hin
    omega

/-- The keys of a column-major traversal are in round-robin order, when every row
has a key of its own. -/
theorem columns_roundRobin {rows : List (List α)} {key : α → κ}
    (hkey : ∀ cell ∈ cells rows, ∀ cell' ∈ cells rows,
      key cell.2.2 = key cell'.2.2 ↔ cell.2.1 = cell'.2.1) :
    RoundRobin ((columns rows).map key) := by
  rw [← cells_map, List.map_map]
  intro before k between after hsplit k' hk'
  obtain ⟨front, tail, hcells, -, htail⟩ := List.map_eq_append_iff.mp hsplit
  obtain ⟨first, rest, rfl, hfirst, hrest⟩ := List.map_eq_cons_iff.mp htail
  obtain ⟨middle, end', rfl, rfl, hend⟩ := List.map_eq_append_iff.mp hrest
  obtain ⟨second, back, rfl, hsecond, rfl⟩ := List.map_eq_cons_iff.mp hend
  obtain ⟨later, hlater, rfl⟩ := List.mem_map.mp hk'
  have hsorted := cells_sorted rows
  have hmem : ∀ cell ∈ front ++ first :: (middle ++ second :: back), cell ∈ cells rows := by
    rw [hcells]
    exact fun _ h => h
  have hfirst_mem := hmem first (by simp)
  have hsecond_mem := hmem second (by simp)
  have hlater_mem := hmem later (by simp [hlater])
  have hrow : first.2.1 = second.2.1 :=
    (hkey _ hfirst_mem _ hsecond_mem).mp (hfirst.trans hsecond.symm)
  rw [hcells, List.pairwise_append, List.pairwise_cons, List.pairwise_append,
    List.pairwise_cons] at hsorted
  obtain ⟨-, ⟨hfirst_lt, -, ⟨hsecond_lt, -⟩, -⟩, -⟩ := hsorted
  have hlt₁ : Before first second := hfirst_lt second (by simp)
  have hlt₂ : Before second later := hsecond_lt later hlater
  -- the row of the later element has an element in every earlier column
  obtain ⟨row, hlater_row, hlater_col⟩ := mem_cells.mp hlater_mem
  have hlength := (List.getElem?_eq_some_iff.mp hlater_col).1
  have hbetween : ∀ col ≤ later.1, Before first (col, later.2.1, later.2.2) →
      Before (col, later.2.1, later.2.2) second →
        (key ∘ fun x => x.2.2) later ∈ middle.map (key ∘ fun x => x.2.2) := by
    intro col hcol hafter hbefore
    have hin : (col, later.2.1, row.get ⟨col, by omega⟩) ∈ cells rows :=
      mem_cells.mpr ⟨row, hlater_row, List.getElem?_eq_getElem _⟩
    have hmiddle := mem_between (cells_sorted rows) hcells hin hafter hbefore
    exact List.mem_map.mpr ⟨_, hmiddle, (hkey _ hin _ hlater_mem).mpr rfl⟩
  have hcolumns : first.1 < second.1 := by
    rcases hlt₁ with hlt | ⟨-, hlt⟩ <;> omega
  have hlast : second.1 ≤ later.1 := by
    rcases hlt₂ with hlt | ⟨heq, -⟩ <;> omega
  rcases Nat.lt_trichotomy later.2.1 first.2.1 with hlt | heq | hgt
  · -- an earlier row: its element in the column of the second occurrence
    exact List.mem_cons_of_mem _
      (hbetween second.1 hlast (.inl hcolumns) (.inr ⟨rfl, hrow ▸ hlt⟩))
  · rw [← hfirst]
    exact List.mem_cons.mpr (.inl ((hkey _ hlater_mem _ hfirst_mem).mpr heq))
  · -- a later row: its element in the column of the first occurrence
    exact List.mem_cons_of_mem _
      (hbetween first.1 (by omega) (.inr ⟨rfl, hgt⟩) (.inl hcolumns))

section Grouped

variable [DecidableEq κ]

/-- Grouped items, one row a key, are visited in round-robin order. -/
theorem groupBy_roundRobin (key : α → κ) (items : List α) :
    RoundRobin ((columns ((groupBy key id items).map Prod.snd)).map key) := by
  have hnodup := groupBy_keys_nodup key id items
  have hcell : ∀ cell ∈ cells ((groupBy key id items).map Prod.snd),
      ((groupBy key id items).map Prod.fst)[cell.2.1]? = some (key cell.2.2) := by
    intro cell hcell
    obtain ⟨row, hrow, hx⟩ := mem_cells.mp hcell
    rw [List.getElem?_map, Option.map_eq_some_iff] at hrow
    obtain ⟨⟨k, row⟩, hgroup, rfl⟩ := hrow
    have hitems := mem_groupBy (List.mem_of_getElem? hgroup)
    have hmem : cell.2.2 ∈ row := List.mem_of_getElem? hx
    rw [hitems, List.map_id, List.mem_filter] at hmem
    rw [List.getElem?_map, hgroup]
    exact congrArg some (of_decide_eq_true hmem.2).symm
  refine columns_roundRobin fun cell h cell' h' => ?_
  constructor
  · intro hkey
    have hplace := hcell cell h
    rw [hkey, ← hcell cell' h'] at hplace
    have hlt : cell.2.1 < ((groupBy key id items).map Prod.fst).length := by
      by_contra hge
      have hnone := hcell cell h
      rw [List.getElem?_eq_none_iff.mpr (by omega)] at hnone
      simp at hnone
    exact (List.getElem?_inj hlt hnodup).mp hplace
  · intro hrow
    have h₁ := hcell cell h
    rw [hrow, hcell cell' h'] at h₁
    exact (Option.some.inj h₁).symm

theorem filter_column (key : α → κ) (k : κ) (col : Nat) :
    ∀ {groups : List (κ × List α)}, (groups.map Prod.fst).Nodup →
      (∀ group ∈ groups, ∀ x ∈ group.2, key x = group.1) →
      (column (groups.map Prod.snd) col).filter (key · = k) =
        (groupOf k groups)[col]?.toList := by
  intro groups
  induction groups with
  | nil => intros; rfl
  | cons group rest ih =>
      intro hnodup hkeys
      obtain ⟨k', row⟩ := group
      obtain ⟨hhead, hnodup⟩ := List.nodup_cons.mp hnodup
      have hih := ih hnodup fun g hg => hkeys g (List.mem_cons_of_mem _ hg)
      have hrow : ∀ x ∈ row[col]?.toList, key x = k' := by
        intro x hx
        exact hkeys _ List.mem_cons_self x
          (List.mem_of_getElem? (Option.mem_toList.mp hx))
      rw [List.map_cons, column_cons, List.filter_append, hih, groupOf]
      split
      · next hk =>
          subst hk
          have hnone : groupOf k' rest = [] := groupOf_of_notMem hhead
          rw [hnone, List.filter_eq_self.mpr fun x hx => by simpa using hrow x hx]
          simp
      · next hk =>
          rw [List.filter_eq_nil_iff.mpr fun x hx => by simpa [hrow x hx] using hk]
          rfl

/-- The traversal keeps the items of one key in their order. -/
theorem filter_columns_groupBy (key : α → κ) (items : List α) (k : κ) :
    (columns ((groupBy key id items).map Prod.snd)).filter (key · = k) =
      items.filter (key · = k) := by
  have hnodup := groupBy_keys_nodup key id items
  have hkeys : ∀ group ∈ groupBy key id items, ∀ x ∈ group.2, key x = group.1 := by
    rintro ⟨k', row⟩ hgroup x hx
    rw [mem_groupBy hgroup, List.map_id, List.mem_filter] at hx
    exact of_decide_eq_true hx.2
  have hgroup : groupOf k (groupBy key id items) = items.filter (key · = k) := by
    rw [groupOf_groupBy, List.map_id]
  have hlength : (groupOf k (groupBy key id items)).length ≤
      width ((groupBy key id items).map Prod.snd) := by
    by_cases hk : k ∈ (groupBy key id items).map Prod.fst
    · obtain ⟨⟨k', row⟩, hmem, rfl⟩ := List.mem_map.mp hk
      rw [groupOf_of_mem hnodup hmem]
      exact length_le_width (List.mem_map_of_mem hmem)
    · rw [groupOf_of_notMem hk]
      exact Nat.zero_le _
  unfold columns
  rw [List.filter_flatMap, ← hgroup]
  calc _ = (List.range (width ((groupBy key id items).map Prod.snd))).flatMap
            (fun col => (groupOf k (groupBy key id items))[col]?.toList) :=
          List.flatMap_congr fun col _ => filter_column key k col hnodup hkeys
    _ = groupOf k (groupBy key id items) := range_flatMap_getElem? _ hlength

end Grouped

/-! ## Rounds -/

/-- One round: a stretch of distinct keys at the front, cut off where there is no
room or at a key it holds. -/
structure IsRound (key : α → κ) (room : Nat) (rest round left : List α) : Prop where
  split : round ++ left = rest
  length_le : round.length ≤ room
  nodup : (round.map key).Nodup
  full : round.length = room ∨ ∀ x ∈ left.head?, key x ∈ round.map key

/-- A list taken apart in rounds. -/
inductive Rounds (key : α → κ) (room : Nat) : List α → List (List α) → Prop
  | nil : Rounds key room [] []
  | cons {rest round left : List α} {rounds : List (List α)} :
      IsRound key room rest round left → Rounds key room left rounds →
        Rounds key room rest (round :: rounds)

namespace Rounds

variable {key : α → κ} {room : Nat}

theorem flatten {rest : List α} {rounds : List (List α)} (h : Rounds key room rest rounds) :
    rounds.flatten = rest := by
  induction h with
  | nil => rfl
  | cons hround _ ih => rw [List.flatten_cons, ih, hround.split]

theorem of_mem {rest : List α} {rounds : List (List α)} (h : Rounds key room rest rounds)
    {round : List α} (hmem : round ∈ rounds) :
    round.length ≤ room ∧ (round.map key).Nodup := by
  induction h with
  | nil => simp at hmem
  | cons hround _ ih =>
      rcases List.mem_cons.mp hmem with rfl | hmem
      · exact ⟨hround.length_le, hround.nodup⟩
      · exact ih hmem

end Rounds

/-- In round-robin order a round that stops at one of its keys holds every key that
is left. -/
theorem IsRound.covers {key : α → κ} {room : Nat} {rest round left : List α}
    (h : IsRound key room rest round left) (hrobin : RoundRobin (rest.map key))
    (hshort : round.length ≠ room) : ∀ x ∈ left, key x ∈ round.map key := by
  have hhead := h.full.resolve_left hshort
  intro x hx
  cases left with
  | nil => simp at hx
  | cons first left =>
      have hfirst : key first ∈ round.map key := hhead first rfl
      rcases List.mem_cons.mp hx with rfl | hx
      · exact hfirst
      · obtain ⟨before, after, hround⟩ := List.append_of_mem hfirst
        have hrest : rest.map key =
            before ++ key first :: (after ++ key first :: left.map key) := by
          rw [← h.split, List.map_append, hround, List.map_cons, List.append_assoc,
            List.cons_append]
        have hmem := hrobin _ _ _ _ hrest (key x) (List.mem_map_of_mem hx)
        rw [hround]
        exact List.mem_append_right _ hmem

/-- On keys in round-robin order the rounds only get shorter. -/
theorem Rounds.lengths {key : α → κ} {room : Nat} {rest : List α} {rounds : List (List α)}
    (h : Rounds key room rest rounds) (hrobin : RoundRobin (rest.map key)) :
    rounds.Pairwise fun earlier later => later.length ≤ earlier.length := by
  induction h with
  | nil => exact .nil
  | @cons rest round left rounds hround hrounds ih =>
      have hleft : RoundRobin (left.map key) := by
        rw [← hround.split, List.map_append] at hrobin
        exact hrobin.of_append
      refine List.pairwise_cons.mpr ⟨?_, ih hleft⟩
      intro later hlater
      obtain ⟨hroom, hnodup⟩ := hrounds.of_mem hlater
      by_cases hfull : round.length = room
      · omega
      · have hsubset : later.map key ⊆ round.map key := by
          intro k hk
          obtain ⟨x, hx, rfl⟩ := List.mem_map.mp hk
          have hin : x ∈ rounds.flatten := List.mem_flatten.mpr ⟨later, hlater, hx⟩
          rw [hrounds.flatten] at hin
          exact hround.covers hrobin hfull x hin
        simpa using (List.subperm_of_subset hnodup hsubset).length_le

/-! ## The places of the rounds -/

/-- Among rows that only get shorter, place `col` of row `i` is the `i`-th element
of the column. -/
theorem column_getElem? {rows : List (List α)}
    (hlengths : rows.Pairwise fun earlier later => later.length ≤ earlier.length)
    (i col : Nat) : (column rows col)[i]? = rows[i]?.bind (·[col]?) := by
  induction rows generalizing i with
  | nil => rfl
  | cons row rest ih =>
      obtain ⟨hrow, hrest⟩ := List.pairwise_cons.mp hlengths
      rw [column_cons]
      cases hcol : row[col]? with
      | some x =>
          cases i with
          | zero => simp [hcol]
          | succ i => simpa using ih hrest i
      | none =>
          -- the column ends with the first row that does not reach it
          have hshort : ∀ other ∈ row :: rest, other[col]? = none := by
            have hlength := List.getElem?_eq_none_iff.mp hcol
            intro other hother
            rcases List.mem_cons.mp hother with rfl | hother
            · exact hcol
            · have := hrow other hother
              exact List.getElem?_eq_none_iff.mpr (by omega)
          have hempty : column rest col = [] := by
            rw [column, List.filterMap_eq_nil_iff]
            exact fun other hother => hshort other (List.mem_cons_of_mem _ hother)
          rw [hempty]
          cases hget : (row :: rest)[i]? with
          | none => simp
          | some other => simp [hshort other (List.mem_of_getElem? hget)]

/-- A later column has at most as many elements. -/
theorem length_column_antitone (rows : List (List α)) {col col' : Nat} (h : col ≤ col') :
    (column rows col').length ≤ (column rows col).length := by
  induction rows with
  | nil => exact Nat.le_refl _
  | cons row rest ih =>
      rw [column_cons, column_cons, List.length_append, List.length_append]
      have hhead : row[col']?.toList.length ≤ row[col]?.toList.length := by
        cases hlater : row[col']? with
        | none => simp
        | some x =>
            have hlength := (List.getElem?_eq_some_iff.mp hlater).1
            have hcol : row[col]? = some row[col] := List.getElem?_eq_getElem (by omega)
            simp [hcol]
      omega

/-- What a position of the list `names` is given, when every round is dealt out to
the names from the front. -/
theorem dealt_eq_column [DecidableEq κ] {names : List κ} (hnodup : names.Nodup) {j : Nat}
    {name : κ} (hname : names[j]? = some name) (rounds : List (List α)) :
    ((rounds.flatMap names.zip).filter (·.1 = name)).map Prod.snd = column rounds j := by
  have hround : ∀ round : List α,
      ((names.zip round).filter (·.1 = name)).map Prod.snd = round[j]?.toList := by
    induction names generalizing j with
    | nil => simp at hname
    | cons first names ih =>
        obtain ⟨hfirst, hnames⟩ := List.nodup_cons.mp hnodup
        intro round
        cases round with
        | nil => simp
        | cons x round =>
            rw [List.zip_cons_cons]
            cases j with
            | zero =>
                obtain rfl : first = name := by simpa using hname
                have hnone : (names.zip round).filter (·.1 = first) = [] := by
                  rw [List.filter_eq_nil_iff]
                  rintro ⟨k, y⟩ hmem heq
                  obtain rfl : k = first := by simpa using heq
                  exact hfirst (List.of_mem_zip hmem).1
                rw [List.filter_cons_of_pos (by simp), hnone]
                rfl
            | succ j =>
                have hmem : name ∈ names := List.mem_of_getElem? (by simpa using hname)
                have hne : first ≠ name := by
                  rintro rfl
                  exact hfirst hmem
                rw [List.filter_cons_of_neg (by simpa using hne)]
                simpa using ih hnames (by simpa using hname) round
  induction rounds with
  | nil => rfl
  | cons round rounds ih =>
      rw [List.flatMap_cons, List.filter_append, List.map_append, ih, hround, column_cons]

end CheckpointEngine.Foundation
