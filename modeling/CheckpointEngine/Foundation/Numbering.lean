/-
  `Foundation.Numbering`: names that end in a number tell the number, and what stands
  before it.
-/
import Mathlib.Data.List.Basic

set_option autoImplicit false

namespace CheckpointEngine.Foundation

/-- What follows the last separator is determined by the whole. -/
theorem append_separator_inj {α : Type} {separator : α} :
    ∀ {xs xs' ys ys' : List α}, separator ∉ ys → separator ∉ ys' →
      xs ++ separator :: ys = xs' ++ separator :: ys' → xs = xs' ∧ ys = ys' := by
  intro xs
  induction xs with
  | nil =>
      intro xs' ys ys' hys _ h
      cases xs' with
      | nil => exact ⟨rfl, (List.cons_eq_cons.mp h).2⟩
      | cons x xs' =>
          obtain ⟨_, htail⟩ := List.cons_eq_cons.mp h
          exact absurd (htail ▸ List.mem_append_right xs' List.mem_cons_self) hys
  | cons x xs ih =>
      intro xs' ys ys' hys hys' h
      cases xs' with
      | nil =>
          obtain ⟨_, htail⟩ := List.cons_eq_cons.mp h
          exact absurd (htail ▸ List.mem_append_right xs List.mem_cons_self) hys'
      | cons x' xs' =>
          obtain ⟨rfl, htail⟩ := List.cons_eq_cons.mp h
          obtain ⟨rfl, hys⟩ := ih hys hys' htail
          exact ⟨rfl, hys⟩

/-- A number is determined by its decimal text. -/
theorem toString_inj {n n' : Nat} (h : toString n = toString n') : n = n' := by
  have hdigits : Nat.toDigits 10 n = Nat.toDigits 10 n' := by
    simpa [Nat.toList_repr] using congrArg String.toList h
  calc n = Nat.ofDigitChars 10 (Nat.toDigits 10 n) 0 := Nat.ofDigitChars_ten_toDigits.symm
    _ = Nat.ofDigitChars 10 (Nat.toDigits 10 n') 0 := by rw [hdigits]
    _ = n' := Nat.ofDigitChars_ten_toDigits

/-- A decimal text consists of digits. -/
theorem isDigit_of_mem_toString {n : Nat} {c : Char} (h : c ∈ (toString n).toList) :
    c.isDigit = true := by
  have hdigit : c ∈ Nat.toDigits 10 n := by simpa [Nat.toList_repr] using h
  exact Nat.isDigit_of_mem_toDigits (by decide) (by decide) hdigit

/-- A numbered name does not become another by a text behind it that has a character in
it which is no digit. -/
theorem numbered_ne {front name back : String} {c : Char} (hback : c ∈ back.toList)
    (hdigit : c.isDigit = false) {n n' : Nat} :
    front ++ (name ++ toString n) ≠ front ++ (name ++ toString n') ++ back := by
  intro h
  rw [String.append_assoc, String.append_right_inj, String.append_assoc,
    String.append_right_inj] at h
  have hmem : c ∈ (toString n).toList := by
    rw [h, String.toList_append]
    exact List.mem_append_right _ hback
  rw [isDigit_of_mem_toString hmem] at hdigit
  contradiction

/-- A name between a fixed front and a separator that is no digit, and a number behind
it: the whole determines both. -/
theorem numbered_inj {front separator : String} {c : Char} (hseparator : separator.toList = [c])
    (hdigit : c.isDigit = false) {name name' : String} {n n' : Nat}
    (h : front ++ name ++ separator ++ toString n = front ++ name' ++ separator ++ toString n') :
    name = name' ∧ n = n' := by
  have hdigits : ∀ m : Nat, c ∉ (toString m).toList := by
    intro m hmem
    rw [isDigit_of_mem_toString hmem] at hdigit
    contradiction
  have hlists := congrArg String.toList h
  simp only [String.toList_append, hseparator, List.append_assoc, List.singleton_append]
    at hlists
  obtain ⟨hname, hnumber⟩ :=
    append_separator_inj (hdigits n) (hdigits n') (List.append_cancel_left hlists)
  exact ⟨String.toList_inj.mp hname, toString_inj (String.toList_inj.mp hnumber)⟩

end CheckpointEngine.Foundation
