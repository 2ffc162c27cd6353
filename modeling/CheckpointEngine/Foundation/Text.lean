/-
  `Foundation.Text`: strings as lists of code points, with the operations of the
  standard library that the device utilities use.
-/
import Mathlib.Data.List.DropRight
import Mathlib.Data.List.Infix
import Mathlib.Data.String.Basic
import CheckpointEngine.Foundation.Numbering

set_option autoImplicit false

namespace CheckpointEngine.Foundation

/-- A string, as its code points. -/
abbrev Text := List Char

namespace Text

/-- `str.isspace` of one code point. -/
def isSpace (c : Char) : Bool :=
  (9 ≤ c.toNat && c.toNat ≤ 13) || (28 ≤ c.toNat && c.toNat ≤ 32) ||
    (0x2000 ≤ c.toNat && c.toNat ≤ 0x200A) ||
    [0x85, 0xA0, 0x1680, 0x2028, 0x2029, 0x202F, 0x205F, 0x3000].contains c.toNat

/-- `text.strip()`. -/
def strip (text : Text) : Text := (text.dropWhile isSpace).rdropWhile isSpace

/-- `text.split(separator)`. -/
def split (separator : Char) (text : Text) : List Text := text.splitOn separator

/-- `separator.join(texts)`. -/
def join (separator : Char) (texts : List Text) : Text := List.intercalate [separator] texts

/-- `text.startswith(mark)`, and `text.removeprefix(mark)`. -/
def takeMark (mark : Char) (text : Text) : Bool × Text :=
  if [mark].isPrefixOf text then (true, text.tail) else (false, text)

/-- The code points of the zeros of the decimal digits; the other nine follow each. -/
def decimalZeros : List Nat :=
  [0x30, 0x660, 0x6F0, 0x7C0, 0x966, 0x9E6, 0xA66, 0xAE6, 0xB66, 0xBE6, 0xC66, 0xCE6, 0xD66,
   0xDE6, 0xE50, 0xED0, 0xF20, 0x1040, 0x1090, 0x17E0, 0x1810, 0x1946, 0x19D0, 0x1A80, 0x1A90,
   0x1B50, 0x1BB0, 0x1C40, 0x1C50, 0xA620, 0xA8D0, 0xA900, 0xA9D0, 0xA9F0, 0xAA50, 0xABF0,
   0xFF10, 0x104A0, 0x10D30, 0x11066, 0x110F0, 0x11136, 0x111D0, 0x112F0, 0x11450, 0x114D0,
   0x11650, 0x116C0, 0x11730, 0x118E0, 0x11950, 0x11C50, 0x11D50, 0x11DA0, 0x16A60, 0x16AC0,
   0x16B50, 0x1D7CE, 0x1D7D8, 0x1D7E2, 0x1D7EC, 0x1D7F6, 0x1E140, 0x1E2F0, 0x1E950, 0x1FBF0]

/-- `unicodedata.decimal` of one code point. -/
def decimal? (c : Char) : Option Nat :=
  (decimalZeros.find? fun z => z ≤ c.toNat && c.toNat ≤ z + 9).map (c.toNat - ·)

/-- `\d` of a regular expression. -/
def isDecimal (c : Char) : Bool := (decimal? c).isSome

/-- `int(digits)`. -/
def toNat (digits : Text) : Nat := digits.foldl (fun n c => 10 * n + (decimal? c).getD 0) 0

/-- `int(text)`: a sign, and digits with single underscores between them. -/
def toInt? (text : Text) : Option Int :=
  let (negative, digits) := match strip text with
    | '-' :: rest => (true, rest)
    | '+' :: rest => (false, rest)
    | rest => (false, rest)
  let groups := split '_' digits
  if groups.any fun group => group.isEmpty || !group.all isDecimal then none
  else some (if negative then -(toNat groups.flatten : Int) else toNat groups.flatten)

/-- `text.find(needle)`, without a value where Python's is -1. -/
def find (needle : Text) : Text → Option Nat
  | [] => if needle = [] then some 0 else none
  | c :: rest =>
      if needle.isPrefixOf (c :: rest) then some 0 else (find needle rest).map (· + 1)

/-- The digits that `[^\d]*(\d+)` finds at the front of a text. -/
def firstDigits (text : Text) : Option Text :=
  let digits := (text.dropWhile fun c => !isDecimal c).takeWhile isDecimal
  if digits = [] then none else some digits

/-- `re.search` of a label with `[^\d]*(\d+)` behind it, and the number of the group.
Where no digit follows the label's first occurrence none follows a later one. -/
def searchNumber (label text : Text) : Option Nat :=
  (find label text).bind fun i => (firstDigits (text.drop (i + label.length))).map toNat

theorem strip_nil : strip [] = [] := rfl

/-- The digits from `0` to `9`. -/
theorem toNat_of_isDigit {c : Char} (h : c.isDigit = true) : 48 ≤ c.toNat ∧ c.toNat ≤ 57 := by
  rw [Char.isDigit, Bool.and_eq_true, decide_eq_true_eq, decide_eq_true_eq] at h
  exact h

theorem decimal?_of_isDigit {c : Char} (h : c.isDigit = true) :
    decimal? c = some (c.toNat - '0'.toNat) := by
  have hrange := toNat_of_isDigit h
  rw [decimal?, decimalZeros, List.find?_cons_of_pos]
  · rfl
  · simpa using hrange

theorem isSpace_of_isDigit {c : Char} (h : c.isDigit = true) : isSpace c = false := by
  have hrange := toNat_of_isDigit h
  simp only [isSpace, Bool.or_eq_false_iff, Bool.and_eq_false_iff, decide_eq_false_iff_not,
    List.contains_eq_mem, List.mem_cons, List.not_mem_nil, or_false]
  omega

theorem strip_of_isDigit {text : Text} (h : ∀ c ∈ text, c.isDigit = true) : strip text = text := by
  rw [strip, List.rdropWhile_eq_self_iff.mpr, List.dropWhile_eq_self_iff.mpr]
  · intro hlength
    simp [isSpace_of_isDigit (h _ (List.getElem_mem hlength))]
  · intro hne hspace
    have hmem := (List.dropWhile_sublist isSpace).subset (List.getLast_mem hne)
    rw [isSpace_of_isDigit (h _ hmem)] at hspace
    cases hspace

theorem toNat_of_isDigit_eq {digits : Text} (h : ∀ c ∈ digits, c.isDigit = true) :
    toNat digits = Nat.ofDigitChars 10 digits 0 := by
  rw [toNat, Nat.ofDigitChars_eq_foldl]
  refine List.foldl_ext _ _ _ fun n c hc => ?_
  rw [decimal?_of_isDigit (h c hc), Option.getD_some]

/-- Digits stand for the number that they write. -/
theorem toInt?_of_isDigit {digits : Text} (hne : digits ≠ [])
    (h : ∀ c ∈ digits, c.isDigit = true) : toInt? digits = some (toNat digits : Int) := by
  have hunderscore : '_' ∉ digits := fun hmem => by cases h _ hmem
  have hgroup : (digits.isEmpty || !digits.all isDecimal) = false := by
    have hall : digits.all isDecimal = true := List.all_eq_true.mpr fun c hc => by
      rw [isDecimal, decimal?_of_isDigit (h c hc), Option.isSome_some]
    rw [hall, List.isEmpty_eq_false_iff.mpr hne]
    rfl
  unfold toInt?
  rw [strip_of_isDigit h]
  split
  rename_i negative rest hsign
  split at hsign
  · exact absurd (h '-' List.mem_cons_self) (by decide)
  · exact absurd (h '+' List.mem_cons_self) (by decide)
  · obtain ⟨rfl, rfl⟩ := Prod.mk.inj hsign
    simp [split, List.splitOn_eq_singleton hunderscore, hgroup]

/-- A number's decimal text stands for the number. -/
theorem toInt?_toString (n : Nat) : toInt? (toString n).toList = some (n : Int) := by
  have hdigits : ∀ c ∈ (toString n).toList, c.isDigit = true := fun c => isDigit_of_mem_toString
  have hnat : toNat (toString n).toList = n := by
    rw [toNat_of_isDigit_eq hdigits]
    simp
  rw [toInt?_of_isDigit (by simp) hdigits, hnat]

end Text

end CheckpointEngine.Foundation
