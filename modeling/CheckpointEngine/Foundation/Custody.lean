/-
  `Foundation.Custody`: resources that are each kept in one slot until they are finished.

  A resource is obtained into an empty slot, handed from a slot to an empty one, and
  finished from the slot that keeps it.  No resource is then in two slots, none is
  finished twice or kept after it was finished, and none is lost.
-/
import Mathlib.Logic.Function.Basic
import Mathlib.Data.List.Nodup

set_option autoImplicit false

namespace CheckpointEngine.Foundation

/-- What each slot keeps, and what has been finished, in order. -/
structure Custody (Slot R : Type) where
  content : Slot → Option R
  finished : List R

namespace Custody

variable {Slot R : Type}

/-- Every resource that satisfies `Known`, and no other, is kept in one slot or has been
finished once. -/
structure Sound (c : Custody Slot R) (Known : R → Prop) : Prop where
  unique : ∀ {a b r}, c.content a = some r → c.content b = some r → a = b
  unfinished : ∀ {a r}, c.content a = some r → r ∉ c.finished
  nodup : c.finished.Nodup
  known : ∀ r, Known r ↔ (∃ a, c.content a = some r) ∨ r ∈ c.finished

theorem Sound.init : Sound (⟨fun _ => none, []⟩ : Custody Slot R) (fun _ => False) where
  unique h := nomatch h
  unfinished h := nomatch h
  nodup := List.nodup_nil
  known r := by simp

section Slots

variable [DecidableEq Slot]

/-- A new resource, into a slot. -/
def obtain (c : Custody Slot R) (slot : Slot) (r : R) : Custody Slot R :=
  { c with content := Function.update c.content slot (some r) }

/-- Finish the resource that a slot keeps. -/
def finish (c : Custody Slot R) (slot : Slot) (r : R) : Custody Slot R where
  content := Function.update c.content slot none
  finished := c.finished ++ [r]

/-- Hand a resource from one slot to another. -/
def hand (c : Custody Slot R) (source target : Slot) (r : R) : Custody Slot R :=
  { c with content := Function.update (Function.update c.content source none) target (some r) }

theorem update_none_eq_some {f : Slot → Option R} {a b : Slot} {r : R} :
    Function.update f a none b = some r ↔ b ≠ a ∧ f b = some r := by
  cases decEq b a with
  | isTrue heq => simp [heq]
  | isFalse hne => simp [hne]

theorem update_some_eq_some {f : Slot → Option R} {a b : Slot} {r x : R} (hempty : f a = none) :
    Function.update f a (some r) b = some x ↔ (b = a ∧ x = r) ∨ f b = some x := by
  cases decEq b a with
  | isTrue heq => simp [heq, hempty, eq_comm]
  | isFalse hne => simp [hne]

variable {c : Custody Slot R} {Known : R → Prop}

theorem Sound.obtain (hc : c.Sound Known) {slot : Slot} {r : R} (hempty : c.content slot = none)
    (hnew : ¬ Known r) : (c.obtain slot r).Sound (fun x => Known x ∨ x = r) := by
  have hkept : ∀ {a x}, c.content a = some x → x ≠ r := by
    rintro a x hx rfl
    exact hnew ((hc.known x).mpr (Or.inl ⟨a, hx⟩))
  have hiff : ∀ {a x}, (c.obtain slot r).content a = some x ↔
      (a = slot ∧ x = r) ∨ c.content a = some x := update_some_eq_some hempty
  refine ⟨?_, ?_, hc.nodup, ?_⟩
  · intro a b x ha hb
    obtain ⟨rfl, rfl⟩ | hkeptA := hiff.mp ha
    · obtain ⟨rfl, -⟩ | hkeptB := hiff.mp hb
      · rfl
      · exact absurd rfl (hkept hkeptB)
    · obtain ⟨-, rfl⟩ | hkeptB := hiff.mp hb
      · exact absurd rfl (hkept hkeptA)
      · exact hc.unique hkeptA hkeptB
  · intro a x ha hfinished
    obtain ⟨rfl, rfl⟩ | ha := hiff.mp ha
    · exact hnew ((hc.known x).mpr (Or.inr hfinished))
    · exact hc.unfinished ha hfinished
  · intro x
    constructor
    · rintro (hx | rfl)
      · exact ((hc.known x).mp hx).imp_left fun ⟨a, ha⟩ => ⟨a, hiff.mpr (Or.inr ha)⟩
      · exact Or.inl ⟨slot, hiff.mpr (Or.inl ⟨rfl, rfl⟩)⟩
    · rintro (⟨a, ha⟩ | hfinished)
      · obtain ⟨-, rfl⟩ | ha := hiff.mp ha
        · exact Or.inr rfl
        · exact Or.inl ((hc.known x).mpr (Or.inl ⟨a, ha⟩))
      · exact Or.inl ((hc.known x).mpr (Or.inr hfinished))

theorem Sound.finish (hc : c.Sound Known) {slot : Slot} {r : R}
    (hslot : c.content slot = some r) : (c.finish slot r).Sound Known := by
  have hiff : ∀ {a x}, (c.finish slot r).content a = some x ↔ a ≠ slot ∧ c.content a = some x :=
    update_none_eq_some
  have hmem : ∀ {x}, x ∈ (c.finish slot r).finished ↔ x ∈ c.finished ∨ x = r := by
    intro x
    simp [Custody.finish]
  refine ⟨?_, ?_, ?_, ?_⟩
  · intro a b x ha hb
    exact hc.unique (hiff.mp ha).2 (hiff.mp hb).2
  · intro a x ha hfinished
    obtain ⟨hne, hkept⟩ := hiff.mp ha
    obtain hbefore | rfl := hmem.mp hfinished
    · exact hc.unfinished hkept hbefore
    · exact hne (hc.unique hkept hslot)
  · refine List.nodup_append.mpr ⟨hc.nodup, List.nodup_singleton r, ?_⟩
    rintro x hx y hy rfl
    rw [List.mem_singleton.mp hy] at hx
    exact hc.unfinished hslot hx
  · intro x
    rw [hc.known x]
    constructor
    · rintro (⟨a, ha⟩ | hfinished)
      · cases decEq a slot with
        | isTrue heq =>
            rw [heq, hslot] at ha
            exact Or.inr (hmem.mpr (Or.inr (Option.some.inj ha).symm))
        | isFalse hne => exact Or.inl ⟨a, hiff.mpr ⟨hne, ha⟩⟩
      · exact Or.inr (hmem.mpr (Or.inl hfinished))
    · rintro (⟨a, ha⟩ | hfinished)
      · exact Or.inl ⟨a, (hiff.mp ha).2⟩
      · obtain hfinished | rfl := hmem.mp hfinished
        · exact Or.inr hfinished
        · exact Or.inl ⟨slot, hslot⟩

theorem Sound.hand (hc : c.Sound Known) {source target : Slot} {r : R}
    (hsource : c.content source = some r) (htarget : c.content target = none) :
    (c.hand source target r).Sound Known := by
  have hempty : Function.update c.content source none target = none := by
    cases decEq target source with
    | isTrue heq => rw [heq, Function.update_self]
    | isFalse hne => rw [Function.update_of_ne hne, htarget]
  have hiff : ∀ {a x}, (c.hand source target r).content a = some x ↔
      (a = target ∧ x = r) ∨ (a ≠ source ∧ c.content a = some x) := by
    intro a x
    rw [← update_none_eq_some]
    exact update_some_eq_some hempty
  refine ⟨?_, ?_, hc.nodup, ?_⟩
  · intro a b x ha hb
    obtain ⟨rfl, rfl⟩ | ⟨hne, hkeptA⟩ := hiff.mp ha
    · obtain ⟨rfl, -⟩ | ⟨hne, hkeptB⟩ := hiff.mp hb
      · rfl
      · exact absurd (hc.unique hkeptB hsource) hne
    · obtain ⟨-, rfl⟩ | ⟨-, hkeptB⟩ := hiff.mp hb
      · exact absurd (hc.unique hkeptA hsource) hne
      · exact hc.unique hkeptA hkeptB
  · intro a x ha hfinished
    obtain ⟨-, rfl⟩ | ⟨-, ha⟩ := hiff.mp ha
    · exact hc.unfinished hsource hfinished
    · exact hc.unfinished ha hfinished
  · intro x
    rw [hc.known x]
    refine or_congr ⟨?_, ?_⟩ Iff.rfl
    · rintro ⟨a, ha⟩
      cases decEq a source with
      | isTrue heq =>
          rw [heq, hsource] at ha
          exact ⟨target, hiff.mpr (Or.inl ⟨rfl, (Option.some.inj ha).symm⟩)⟩
      | isFalse hne => exact ⟨a, hiff.mpr (Or.inr ⟨hne, ha⟩)⟩
    · rintro ⟨a, ha⟩
      obtain ⟨-, rfl⟩ | ⟨-, ha⟩ := hiff.mp ha
      · exact ⟨source, hsource⟩
      · exact ⟨a, ha⟩

end Slots

end Custody

end CheckpointEngine.Foundation
