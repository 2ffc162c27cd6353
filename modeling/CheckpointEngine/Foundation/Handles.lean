/-
  `Foundation.Handles`: resources that a library makes and destroys by handle.

  A handle is given out again once the resource it stood for has been destroyed.  A
  resource is therefore told by its place in the order in which they were made, and a
  handle stands for the last one that was made with it.
-/
import Mathlib.Logic.Function.Basic
import Mathlib.Data.List.Basic

set_option autoImplicit false

namespace CheckpointEngine.Foundation

/-- A resource: its handle, and what it is for. -/
structure Resource (κ α : Type) where
  handle : κ
  purpose : α
  deriving DecidableEq, Repr

/-- The resources made so far, how often each was destroyed, and what each handle stands
for. -/
structure Ledger (κ α : Type) where
  resources : List (Resource κ α)
  destroyed : Nat → Nat
  holder : κ → Option Nat

namespace Ledger

variable {κ α : Type}

def empty : Ledger κ α := ⟨[], fun _ => 0, fun _ => none⟩

/-- No resource with the handle is left. -/
def Fresh (L : Ledger κ α) (handle : κ) : Prop :=
  ∀ i < L.resources.length, ∀ r ∈ L.resources[i]?, L.destroyed i = 0 → r.handle ≠ handle

/-- The handle stands for the resource at the place, which has not been destroyed. -/
structure Stands (L : Ledger κ α) (handle : κ) (i : Nat) (purpose : α) : Prop where
  holder : L.holder handle = some i
  resource : L.resources[i]? = some ⟨handle, purpose⟩
  destroyed : L.destroyed i = 0

/-- Every resource that is left has its handle to itself, and none was destroyed twice. -/
structure Sound (L : Ledger κ α) : Prop where
  held : ∀ {handle i}, L.holder handle = some i → ∃ purpose,
    L.resources[i]? = some ⟨handle, purpose⟩
  stands : ∀ {i r}, L.resources[i]? = some r → L.destroyed i = 0 → L.holder r.handle = some i
  once : ∀ i, L.destroyed i ≤ 1
  unmade : ∀ {i}, L.resources.length ≤ i → L.destroyed i = 0

theorem Sound.init : Sound (empty : Ledger κ α) where
  held h := nomatch h
  stands h := nomatch h
  once _ := Nat.zero_le 1
  unmade _ := rfl

/-- A handle stands for one resource. -/
theorem Stands.unique {L : Ledger κ α} {handle : κ} {i j : Nat} {purpose purpose' : α}
    (h : L.Stands handle i purpose) (h' : L.Stands handle j purpose') :
    i = j ∧ purpose = purpose' := by
  obtain rfl := Option.some.inj (h.holder.symm.trans h'.holder)
  exact ⟨rfl, congrArg Resource.purpose (Option.some.inj (h.resource.symm.trans h'.resource))⟩

/-- What is left stands under its handle. -/
theorem Sound.stands_of_live {L : Ledger κ α} (hsound : L.Sound) {i : Nat} {handle : κ}
    {purpose : α} (hi : L.resources[i]? = some ⟨handle, purpose⟩) (hlive : L.destroyed i = 0) :
    L.Stands handle i purpose :=
  ⟨hsound.stands hi hlive, hi, hlive⟩

theorem Fresh.ne {L : Ledger κ α} {handle handle' : κ} {i : Nat} {purpose : α}
    (h : L.Fresh handle) (hstands : L.Stands handle' i purpose) : handle' ≠ handle := by
  have hi : i < L.resources.length := (List.getElem?_eq_some_iff.mp hstands.resource).1
  exact h i hi _ hstands.resource hstands.destroyed

section Create

variable [DecidableEq κ] {L : Ledger κ α} {handle : κ} {purpose : α}

instance (L : Ledger κ α) (handle : κ) : Decidable (L.Fresh handle) :=
  inferInstanceAs (Decidable (∀ i < L.resources.length, ∀ r ∈ L.resources[i]?,
    L.destroyed i = 0 → r.handle ≠ handle))

/-- Make a resource with the handle. -/
def create (L : Ledger κ α) (handle : κ) (purpose : α) : Ledger κ α where
  resources := L.resources ++ [⟨handle, purpose⟩]
  destroyed := L.destroyed
  holder := Function.update L.holder handle (some L.resources.length)

theorem holder_create (handle' : κ) : (L.create handle purpose).holder handle' =
    if handle' = handle then some L.resources.length else L.holder handle' :=
  Function.update_apply ..

theorem resource_create_of_lt {i : Nat} (hi : i < L.resources.length) :
    (L.create handle purpose).resources[i]? = L.resources[i]? :=
  List.getElem?_append_left hi

theorem resource_create_self :
    (L.create handle purpose).resources[L.resources.length]? = some ⟨handle, purpose⟩ :=
  List.getElem?_concat_length

/-- What there is after a resource was made: what there was, and the new one. -/
theorem resource_create_iff {i : Nat} {r : Resource κ α} :
    (L.create handle purpose).resources[i]? = some r ↔
      L.resources[i]? = some r ∨ i = L.resources.length ∧ r = ⟨handle, purpose⟩ := by
  obtain hlt | heq | hgt := Nat.lt_trichotomy i L.resources.length
  · rw [resource_create_of_lt hlt]
    exact ⟨Or.inl, fun h => h.resolve_right fun hnew => Nat.ne_of_lt hlt hnew.1⟩
  · subst heq
    rw [resource_create_self, List.getElem?_eq_none (Nat.le_refl _)]
    simp [eq_comm]
  · have hlength : (L.create handle purpose).resources.length ≤ i := by
      rw [create, List.length_append, List.length_singleton]
      exact hgt
    rw [List.getElem?_eq_none hlength, List.getElem?_eq_none (Nat.le_of_lt hgt)]
    simp only [reduceCtorEq, false_or, false_iff, not_and]
    exact fun heq => absurd heq (Nat.ne_of_gt hgt)

/-- The new resource stands under its handle. -/
theorem Sound.stands_create_self (hsound : L.Sound) :
    (L.create handle purpose).Stands handle L.resources.length purpose where
  holder := Function.update_self ..
  resource := resource_create_self
  destroyed := hsound.unmade (Nat.le_refl _)

/-- What stood under another handle stands there still. -/
theorem Stands.create {handle' : κ} {i : Nat} {purpose' : α}
    (h : L.Stands handle' i purpose') (hne : handle' ≠ handle) :
    (L.create handle purpose).Stands handle' i purpose' where
  holder := (Function.update_of_ne hne ..).trans h.holder
  resource := resource_create_iff.mpr (Or.inl h.resource)
  destroyed := h.destroyed

theorem Sound.create (hsound : L.Sound) (hfresh : L.Fresh handle) :
    (L.create handle purpose).Sound where
  held := by
    intro handle' i h
    rw [holder_create] at h
    split at h
    · rename_i heq
      obtain rfl := Option.some.inj h
      subst heq
      exact ⟨purpose, resource_create_self⟩
    · obtain ⟨purpose', hi⟩ := hsound.held h
      exact ⟨purpose', resource_create_iff.mpr (Or.inl hi)⟩
  stands := by
    intro i r hi hlive
    cases resource_create_iff.mp hi with
    | inl hold =>
        have hstands := hsound.stands_of_live hold hlive
        exact (hstands.create (hfresh.ne hstands)).holder
    | inr hnew =>
        obtain ⟨rfl, rfl⟩ := hnew
        exact hsound.stands_create_self.holder
  once := hsound.once
  unmade := by
    intro i hi
    have hlength : L.resources.length ≤ i := by
      simp only [Ledger.create, List.length_append, List.length_singleton] at hi
      omega
    exact hsound.unmade hlength

end Create

/-- Destroy what the handle stands for. -/
def destroy (L : Ledger κ α) (handle : κ) : Ledger κ α :=
  match L.holder handle with
  | none => L
  | some i => { L with destroyed := Function.update L.destroyed i (L.destroyed i + 1) }

section Destroy

variable {L : Ledger κ α} {handle : κ} {i : Nat} {purpose : α}

theorem destroy_eq (h : L.Stands handle i purpose) :
    L.destroy handle = { L with destroyed := Function.update L.destroyed i 1 } := by
  rw [destroy, h.holder]
  simp only [h.destroyed]

@[simp] theorem resources_destroy : (L.destroy handle).resources = L.resources := by
  rw [destroy]
  split <;> rfl

@[simp] theorem holder_destroy : (L.destroy handle).holder = L.holder := by
  rw [destroy]
  split <;> rfl

theorem destroyed_destroy_self (h : L.Stands handle i purpose) :
    (L.destroy handle).destroyed i = 1 := by
  rw [destroy_eq h]
  exact Function.update_self ..

theorem destroyed_destroy_of_ne (h : L.Stands handle i purpose) {j : Nat} (hne : j ≠ i) :
    (L.destroy handle).destroyed j = L.destroyed j := by
  rw [destroy_eq h]
  exact Function.update_of_ne hne ..

/-- What is left after a resource was destroyed was left before, and is another one. -/
theorem live_of_destroy (h : L.Stands handle i purpose) {j : Nat}
    (hlive : (L.destroy handle).destroyed j = 0) : j ≠ i ∧ L.destroyed j = 0 := by
  have hne : j ≠ i := by
    intro heq
    rw [heq, destroyed_destroy_self h] at hlive
    cases hlive
  exact ⟨hne, by rwa [destroyed_destroy_of_ne h hne] at hlive⟩

/-- What stands under another handle is left. -/
theorem Stands.destroy {handle' : κ} {j : Nat} {purpose' : α}
    (h' : L.Stands handle' j purpose') (h : L.Stands handle i purpose)
    (hne : handle' ≠ handle) : (L.destroy handle).Stands handle' j purpose' where
  holder := by rw [holder_destroy, h'.holder]
  resource := by rw [resources_destroy, h'.resource]
  destroyed := by
    have hji : j ≠ i := by
      intro heq
      subst heq
      have hsame := Option.some.inj (h'.resource.symm.trans h.resource)
      exact hne (congrArg Resource.handle hsame)
    rw [destroyed_destroy_of_ne h hji, h'.destroyed]

theorem Sound.destroy (hsound : L.Sound) (h : L.Stands handle i purpose) :
    (L.destroy handle).Sound where
  held := by
    intro handle' j hj
    rw [holder_destroy] at hj
    rw [resources_destroy]
    exact hsound.held hj
  stands := by
    intro j r hj hlive
    rw [resources_destroy] at hj
    rw [holder_destroy]
    exact hsound.stands hj (live_of_destroy h hlive).2
  once := by
    intro j
    by_cases heq : j = i
    · exact Nat.le_of_eq (heq ▸ destroyed_destroy_self h)
    · rw [destroyed_destroy_of_ne h heq]
      exact hsound.once j
  unmade := by
    intro j hj
    rw [resources_destroy] at hj
    have hi : i < L.resources.length := (List.getElem?_eq_some_iff.mp h.resource).1
    rw [destroyed_destroy_of_ne h (Nat.ne_of_gt (Nat.lt_of_lt_of_le hi hj))]
    exact hsound.unmade hj

end Destroy

end Ledger

end CheckpointEngine.Foundation
