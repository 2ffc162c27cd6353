/-
  `Foundation.NextFit`: sequential packing of a list into bins of bounded load.

  Next-fit keeps one bin open.  An item goes into the open bin if it fits there;
  otherwise the open bin is closed for good and the item opens a new one.  The
  order of the items is never changed, so the bins, read one after the other,
  are the input list.
-/
import Mathlib.Data.List.Basic
import Mathlib.Algebra.BigOperators.Group.List.Basic
import Mathlib.Algebra.Order.BigOperators.Group.List
import Mathlib.Algebra.Order.Ring.Int

set_option autoImplicit false

namespace CheckpointEngine.Foundation

variable {α β : Type}

/-- Total weight of a list of items. -/
def load (weight : α → Nat) (items : List α) : Nat := (items.map weight).sum

@[simp] theorem load_nil (weight : α → Nat) : load weight [] = 0 := rfl

@[simp] theorem load_cons (weight : α → Nat) (x : α) (xs : List α) :
    load weight (x :: xs) = weight x + load weight xs := by
  simp [load]

@[simp] theorem load_append (weight : α → Nat) (xs ys : List α) :
    load weight (xs ++ ys) = load weight xs + load weight ys := by
  simp [load]

theorem load_singleton (weight : α → Nat) (x : α) : load weight [x] = weight x := by
  simp

theorem load_flatten (weight : α → Nat) (bins : List (List α)) :
    load weight bins.flatten = load (load weight) bins := by
  induction bins with
  | nil => rfl
  | cons bin bins ih => simp [ih]

theorem load_map (weight : β → Nat) (f : α → β) (xs : List α) :
    load weight (xs.map f) = load (fun x => weight (f x)) xs := by
  simp [load, Function.comp_def]

theorem le_load_of_mem {weight : α → Nat} {x : α} {xs : List α} (h : x ∈ xs) :
    weight x ≤ load weight xs := by
  induction xs with
  | nil => simp at h
  | cons y ys ih =>
      rw [load_cons]
      rcases List.mem_cons.mp h with rfl | h
      · omega
      · have := ih h
        omega

/-- A packing under construction: the bins closed so far and the open bin. -/
structure Packing (α : Type) where
  closed : List (List α)
  openBin : List α
  deriving Repr, DecidableEq

namespace Packing

/-- Nothing packed yet. -/
def empty : Packing α := ⟨[], []⟩

/-- All bins, the open one last. -/
def bins (p : Packing α) : List (List α) := p.closed ++ [p.openBin]

/-- Place one item: in the open bin if it still fits, else in a new bin. -/
def place (capacity : Nat) (weight : α → Nat) (p : Packing α) (x : α) : Packing α :=
  if load weight p.openBin + weight x > capacity then
    ⟨p.closed ++ [p.openBin], [x]⟩
  else
    ⟨p.closed, p.openBin ++ [x]⟩

@[simp] theorem empty_bins : (empty : Packing α).bins = [[]] := rfl

@[simp] theorem place_flatten (capacity : Nat) (weight : α → Nat) (p : Packing α) (x : α) :
    (p.place capacity weight x).bins.flatten = p.bins.flatten ++ [x] := by
  unfold place
  split <;> simp [bins]

/-- The invariant of next-fit: no bin is overloaded, and a bin that follows
another one carries weight. -/
structure Fits (capacity : Nat) (weight : α → Nat) (p : Packing α) : Prop where
  closed_pos : ∀ bin ∈ p.closed, 0 < load weight bin
  closed_le : ∀ bin ∈ p.closed, load weight bin ≤ capacity
  open_pos : p.closed ≠ [] → 0 < load weight p.openBin
  open_le : load weight p.openBin ≤ capacity

theorem fits_empty (capacity : Nat) (weight : α → Nat) :
    (empty : Packing α).Fits capacity weight where
  closed_pos := by simp [empty]
  closed_le := by simp [empty]
  open_pos := by simp [empty]
  open_le := by simp [empty]

/-- An item that fits into an empty bin keeps the invariant: a bin is closed
only by an item that overflows it, so the closed bin is not empty and the new
bin carries that item. -/
theorem Fits.place {capacity : Nat} {weight : α → Nat} {p : Packing α} {x : α}
    (h : p.Fits capacity weight) (hx : weight x ≤ capacity) :
    (p.place capacity weight x).Fits capacity weight := by
  unfold Packing.place
  split
  · rename_i hover
    have hopen := h.open_le
    refine ⟨?_, ?_, ?_, ?_⟩
    · intro bin hbin
      rcases List.mem_append.mp hbin with hbin | hbin
      · exact h.closed_pos bin hbin
      · rw [List.mem_singleton.mp hbin]
        omega
    · intro bin hbin
      rcases List.mem_append.mp hbin with hbin | hbin
      · exact h.closed_le bin hbin
      · rw [List.mem_singleton.mp hbin]
        exact hopen
    · intro _
      simp only [load_singleton]
      omega
    · simpa using hx
  · rename_i hfit
    refine ⟨h.closed_pos, h.closed_le, ?_, ?_⟩
    · intro hne
      have := h.open_pos hne
      simp only [load_append]
      omega
    · simp only [load_append, load_singleton]
      omega

theorem Fits.bins_le {capacity : Nat} {weight : α → Nat} {p : Packing α}
    (h : p.Fits capacity weight) : ∀ bin ∈ p.bins, load weight bin ≤ capacity := by
  intro bin hbin
  rcases List.mem_append.mp hbin with hbin | hbin
  · exact h.closed_le bin hbin
  · rw [List.mem_singleton.mp hbin]
    exact h.open_le

/-- Once anything with weight has been packed, every bin carries weight. -/
theorem Fits.bins_pos {capacity : Nat} {weight : α → Nat} {p : Packing α}
    (h : p.Fits capacity weight) (hpos : 0 < load weight p.bins.flatten) :
    ∀ bin ∈ p.bins, 0 < load weight bin := by
  intro bin hbin
  rcases List.mem_append.mp hbin with hbin | hbin
  · exact h.closed_pos bin hbin
  · rw [List.mem_singleton.mp hbin]
    cases hclosed : p.closed with
    | nil => simpa [bins, hclosed] using hpos
    | cons first rest => exact h.open_pos (by simp [hclosed])

end Packing

/-- The packing that next-fit reaches on `items`. -/
def packing (capacity : Nat) (weight : α → Nat) (items : List α) : Packing α :=
  items.foldl (Packing.place capacity weight) Packing.empty

/-- The bins of next-fit, in the order they were opened. -/
def nextFit (capacity : Nat) (weight : α → Nat) (items : List α) : List (List α) :=
  (packing capacity weight items).bins

theorem foldl_place_flatten (capacity : Nat) (weight : α → Nat) (items : List α)
    (p : Packing α) :
    (items.foldl (Packing.place capacity weight) p).bins.flatten =
      p.bins.flatten ++ items := by
  induction items generalizing p with
  | nil => simp
  | cons x xs ih =>
      rw [List.foldl_cons, ih, Packing.place_flatten]
      simp

/-- Next-fit neither loses, duplicates nor reorders an item. -/
theorem nextFit_flatten (capacity : Nat) (weight : α → Nat) (items : List α) :
    (nextFit capacity weight items).flatten = items := by
  unfold nextFit packing
  rw [foldl_place_flatten]
  simp

theorem foldl_place_fits {capacity : Nat} {weight : α → Nat} {items : List α}
    (hitems : ∀ x ∈ items, weight x ≤ capacity) {p : Packing α}
    (hp : p.Fits capacity weight) :
    (items.foldl (Packing.place capacity weight) p).Fits capacity weight := by
  induction items generalizing p with
  | nil => exact hp
  | cons x xs ih =>
      rw [List.foldl_cons]
      exact ih (fun y hy => hitems y (List.mem_cons_of_mem _ hy))
        (hp.place (hitems x List.mem_cons_self))

theorem packing_fits {capacity : Nat} {weight : α → Nat} {items : List α}
    (hitems : ∀ x ∈ items, weight x ≤ capacity) :
    (packing capacity weight items).Fits capacity weight :=
  foldl_place_fits hitems (Packing.fits_empty capacity weight)

theorem nextFit_load_le {capacity : Nat} {weight : α → Nat} {items : List α}
    (hitems : ∀ x ∈ items, weight x ≤ capacity) :
    ∀ bin ∈ nextFit capacity weight items, load weight bin ≤ capacity :=
  (packing_fits hitems).bins_le

theorem nextFit_load_pos {capacity : Nat} {weight : α → Nat} {items : List α}
    (hitems : ∀ x ∈ items, weight x ≤ capacity) (hpos : 0 < load weight items) :
    ∀ bin ∈ nextFit capacity weight items, 0 < load weight bin := by
  refine (packing_fits hitems).bins_pos ?_
  have hflatten : (packing capacity weight items).bins.flatten = items :=
    nextFit_flatten capacity weight items
  rw [hflatten]
  exact hpos

/-! ## Renaming items -/

theorem Packing.place_map (capacity : Nat) (weight : β → Nat) (f : α → β)
    (p : Packing α) (x : α) :
    Packing.place capacity weight ⟨p.closed.map (List.map f), p.openBin.map f⟩ (f x) =
      ⟨(p.place capacity (fun y => weight (f y)) x).closed.map (List.map f),
        (p.place capacity (fun y => weight (f y)) x).openBin.map f⟩ := by
  unfold Packing.place
  simp only [load_map]
  split <;> simp

/-- Next-fit looks at nothing but the weights. -/
theorem nextFit_map (capacity : Nat) (weight : β → Nat) (f : α → β) (items : List α) :
    nextFit capacity weight (items.map f) =
      (nextFit capacity (fun x => weight (f x)) items).map (List.map f) := by
  have hfold : ∀ (xs : List α) (p : Packing α),
      (xs.map f).foldl (Packing.place capacity weight)
          ⟨p.closed.map (List.map f), p.openBin.map f⟩ =
        ⟨(xs.foldl (Packing.place capacity fun x => weight (f x)) p).closed.map (List.map f),
          (xs.foldl (Packing.place capacity fun x => weight (f x)) p).openBin.map f⟩ := by
    intro xs
    induction xs with
    | nil => intro p; rfl
    | cons x xs ih =>
        intro p
        rw [List.map_cons, List.foldl_cons, List.foldl_cons, Packing.place_map, ih]
  unfold nextFit packing Packing.bins
  rw [show (Packing.empty : Packing β) =
    ⟨(Packing.empty : Packing α).closed.map (List.map f),
      (Packing.empty : Packing α).openBin.map f⟩ from rfl, hfold]
  simp

/-! ## Where items land -/

/-- `P x before` holds of every item of a bin that begins at `start`, where `before`
is the position at which the item lies. -/
def Lies (weight : α → Nat) (P : α → Nat → Prop) : Nat → List α → Prop
  | _, [] => True
  | start, x :: xs => P x start ∧ Lies weight P (start + weight x) xs

/-- `P x before` holds of every item, where `before` is what its bin holds when the
item comes: nothing when the item does not fit behind the `fill` there is. -/
def Lands (capacity : Nat) (weight : α → Nat) (P : α → Nat → Prop) : Nat → List α → Prop
  | _, [] => True
  | fill, x :: xs =>
      let before := if fill + weight x > capacity then 0 else fill
      P x before ∧ Lands capacity weight P (before + weight x) xs

theorem lies_append {weight : α → Nat} {P : α → Nat → Prop} {xs ys : List α} {start : Nat} :
    Lies weight P start (xs ++ ys) ↔
      Lies weight P start xs ∧ Lies weight P (start + load weight xs) ys := by
  induction xs generalizing start with
  | nil => simp [Lies]
  | cons x xs ih =>
      simp only [List.cons_append, Lies, ih, load_cons, and_assoc, Nat.add_assoc]

/-- The items of all bins lie well exactly if every item lands well. -/
theorem foldl_place_lies {capacity : Nat} {weight : α → Nat} {P : α → Nat → Prop}
    (hzero : ∀ x, P x 0) (items : List α) (p : Packing α) :
    (∀ bin ∈ (items.foldl (Packing.place capacity weight) p).bins, Lies weight P 0 bin) ↔
      (∀ bin ∈ p.bins, Lies weight P 0 bin) ∧
        Lands capacity weight P (load weight p.openBin) items := by
  induction items generalizing p with
  | nil => simp [Lands]
  | cons x xs ih =>
      rw [List.foldl_cons, ih, Lands]
      unfold Packing.place
      by_cases hover : load weight p.openBin + weight x > capacity
      · -- the item opens a bin, at its beginning
        simp [if_pos hover, Packing.bins, Lies, hzero, or_imp, forall_and, and_assoc]
      · simp [if_neg hover, Packing.bins, lies_append, Lies, or_imp, forall_and, and_assoc]

theorem nextFit_lies {capacity : Nat} {weight : α → Nat} {P : α → Nat → Prop}
    (hzero : ∀ x, P x 0) (items : List α) :
    (∀ bin ∈ nextFit capacity weight items, Lies weight P 0 bin) ↔
      Lands capacity weight P 0 items := by
  have h := @foldl_place_lies _ capacity weight _ hzero items .empty
  simpa [Packing.empty, Packing.bins, Lies, nextFit, packing] using h

/-- What an empty bin has and every item keeps holds of the fill wherever an item
lands. -/
theorem lands_of_fill {weight : α → Nat} {P : α → Nat → Prop} {I : Nat → Prop} {capacity : Nat}
    {xs : List α} (hzero : I 0) (hadd : ∀ x ∈ xs, ∀ fill, I fill → I (fill + weight x))
    (hP : ∀ x ∈ xs, ∀ fill, I fill → P x fill) :
    ∀ {fill : Nat}, I fill → Lands capacity weight P fill xs := by
  induction xs with
  | nil =>
      intro fill _
      trivial
  | cons x xs ih =>
      intro fill hfill
      have hbefore : I (if fill + weight x > capacity then 0 else fill) := by
        split
        · exact hzero
        · exact hfill
      obtain ⟨haddHead, haddTail⟩ := List.forall_mem_cons.mp hadd
      obtain ⟨hPHead, hPTail⟩ := List.forall_mem_cons.mp hP
      exact ⟨hPHead _ hbefore, ih haddTail hPTail (haddHead _ hbefore)⟩

end CheckpointEngine.Foundation
