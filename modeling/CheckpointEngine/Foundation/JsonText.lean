/-
  `Foundation.JsonText`: the JSON values that bytes of UTF-8 text stand for, by the
  grammar of Python's `json.loads`.

  Errors carry the text of the `JSONDecodeError` without its position.
-/
import CheckpointEngine.Foundation.Json

set_option autoImplicit false

namespace CheckpointEngine.Foundation

/-! ## Characters -/

/-- The bits that a continuation byte adds to a character. -/
def continuation (b : UInt8) : Option Nat :=
  if 0x80 ≤ b ∧ b < 0xC0 then some (b.toNat - 0x80) else none

/-- A character from its code point, which takes at least so much room. -/
def scalar (least : Nat) (codePoint : Option Nat) : Option Char := do
  let n ← codePoint
  if least ≤ n ∧ n.isValidChar then return Char.ofNat n else none

/-- The characters of UTF-8 text. -/
def decodeUtf8 : List UInt8 → Option (List Char)
  | [] => some []
  | a :: rest =>
      if a < 0x80 then do return Char.ofNat a.toNat :: (← decodeUtf8 rest)
      else if a < 0xE0 then
        match rest with
        | b :: rest => do
            let c ← scalar 0x80 do return (a.toNat - 0xC0) * 0x40 + (← continuation b)
            return c :: (← decodeUtf8 rest)
        | _ => none
      else if a < 0xF0 then
        match rest with
        | b :: c :: rest => do
            let c ← scalar 0x800 do
              return (a.toNat - 0xE0) * 0x1000 + (← continuation b) * 0x40 + (← continuation c)
            return c :: (← decodeUtf8 rest)
        | _ => none
      else
        match rest with
        | b :: c :: d :: rest => do
            let c ← scalar 0x10000 do
              return (a.toNat - 0xF0) * 0x40000 + (← continuation b) * 0x1000 +
                (← continuation c) * 0x40 + (← continuation d)
            return c :: (← decodeUtf8 rest)
        | _ => none

namespace Json

/-- A scanner takes a value off the front of a text. -/
abbrev Scan (α : Type) := List Char → Except String (α × List Char)

/-- The text behind white space. -/
def skipSpace (text : List Char) : List Char :=
  text.dropWhile fun c => c = ' ' || c = '\t' || c = '\n' || c = '\r'

/-! ## Strings -/

/-- The value of a hexadecimal digit. -/
def hexDigit (c : Char) : Option Nat :=
  if '0' ≤ c ∧ c ≤ '9' then some (c.toNat - '0'.toNat)
  else if 'a' ≤ c ∧ c ≤ 'f' then some (c.toNat - 'a'.toNat + 10)
  else if 'A' ≤ c ∧ c ≤ 'F' then some (c.toNat - 'A'.toNat + 10)
  else none

/-- The code unit of `\uXXXX`. -/
def codeUnit (a b c d : Char) : Option Nat := do
  return (((← hexDigit a) * 16 + (← hexDigit b)) * 16 + (← hexDigit c)) * 16 + (← hexDigit d)

/-- What `\c` stands for. -/
def escaped (c : Char) : Option Nat :=
  match c with
  | '"' | '\\' | '/' => some c.toNat
  | 'b' => some 0x08
  | 'f' => some 0x0C
  | 'n' => some 0x0A
  | 'r' => some 0x0D
  | 't' => some 0x09
  | _ => none

/-- The code units up to the closing quote. -/
def scanUnits : Scan (List Nat)
  | [] => .error "Unterminated string starting at"
  | '"' :: rest => .ok ([], rest)
  | '\\' :: 'u' :: a :: b :: c :: d :: rest =>
      match codeUnit a b c d with
      | some unit => do
          let (units, rest) ← scanUnits rest
          return (unit :: units, rest)
      | none => .error "Invalid \\uXXXX escape"
  | '\\' :: c :: rest =>
      match escaped c with
      | some unit => do
          let (units, rest) ← scanUnits rest
          return (unit :: units, rest)
      | none => .error "Invalid \\escape: "
  | c :: rest =>
      if c.toNat < 0x20 then .error "Invalid control character at"
      else do
        let (units, rest) ← scanUnits rest
        return (c.toNat :: units, rest)

/-- Code units as characters; two surrogates are one.  A surrogate that stands alone is
no character. -/
def joinSurrogates : List Nat → Except String (List Char)
  | [] => .ok []
  | [unit] => if unit.isValidChar then .ok [Char.ofNat unit] else .error "surrogates not allowed"
  | high :: low :: rest =>
      if 0xD800 ≤ high ∧ high < 0xDC00 ∧ 0xDC00 ≤ low ∧ low < 0xE000 then do
        let c := Char.ofNat (0x10000 + (high - 0xD800) * 0x400 + (low - 0xDC00))
        return c :: (← joinSurrogates rest)
      else if high.isValidChar then do
        return Char.ofNat high :: (← joinSurrogates (low :: rest))
      else .error "surrogates not allowed"

/-- A string, behind its opening quote. -/
def scanString : Scan String := fun text => do
  let (units, rest) ← scanUnits text
  return (String.ofList (← joinSurrogates units), rest)

/-! ## Numbers -/

def digitsValue (digits : List Char) : Nat :=
  digits.foldl (fun n c => 10 * n + (c.toNat - '0'.toNat)) 0

/-- Digits behind a mark, if there are any. -/
def scanDigits (text : List Char) : Option (List Char × List Char) :=
  let digits := text.takeWhile Char.isDigit
  if digits.isEmpty then none else some (digits, text.drop digits.length)

/-- `0`, or digits that begin with another one. -/
def scanWhole : List Char → Option (List Char × List Char)
  | '0' :: rest => some (['0'], rest)
  | text => scanDigits text

/-- The digits of a fraction: none where there is no fraction. -/
def scanFraction : List Char → List Char × List Char
  | '.' :: rest => (scanDigits rest).getD ([], '.' :: rest)
  | text => ([], text)

/-- An exponent, if there is one. -/
def scanExponent : List Char → Option (Int × List Char)
  | 'e' :: rest | 'E' :: rest =>
      match rest with
      | '-' :: rest => (scanDigits rest).map fun (digits, rest) => (-digitsValue digits, rest)
      | '+' :: rest => (scanDigits rest).map fun (digits, rest) => (digitsValue digits, rest)
      | rest => (scanDigits rest).map fun (digits, rest) => (digitsValue digits, rest)
  | _ => none

/-- A number without its sign.  One with a fraction or an exponent is a float. -/
def scanUnsigned (negative : Bool) (text : List Char) : Option (Number × List Char) := do
  let (whole, rest) ← scanWhole text
  let (fraction, rest) := scanFraction rest
  let exponent := scanExponent rest
  let sign : Int := if negative then -1 else 1
  if fraction.isEmpty && exponent.isNone then
    return (.int (sign * digitsValue whole), rest)
  else
    let (power, rest) := exponent.getD (0, rest)
    let digits : Rat := (sign * digitsValue (whole ++ fraction) : Int)
    return (.float (roundToDouble (digits * 10 ^ (power - fraction.length))), rest)

def scanNumber : List Char → Option (Number × List Char)
  | '-' :: rest => scanUnsigned true rest
  | text => scanUnsigned false text

/-! ## Values -/

/-- An entry set in a dictionary, where its key was first entered. -/
def setEntry (key : String) (value : Json) : List (String × Json) → List (String × Json)
  | [] => [(key, value)]
  | entry :: rest =>
      if entry.1 = key then (key, value) :: rest else entry :: setEntry key value rest

mutual

/-- A value.  A character takes at most two nested calls. -/
def scanValue : Nat → Scan Json
  | 0, _ => .error "maximum recursion depth exceeded"
  | depth + 1, text =>
      match text with
      | '"' :: rest => do
          let (s, rest) ← scanString rest
          return (.str s, rest)
      | '{' :: rest =>
          match skipSpace rest with
          | '}' :: rest => .ok (.obj [], rest)
          | rest => do
              let (entries, rest) ← scanEntries depth [] rest
              return (.obj entries, rest)
      | '[' :: rest =>
          match skipSpace rest with
          | ']' :: rest => .ok (.arr [], rest)
          | rest => do
              let (items, rest) ← scanItems depth rest
              return (.arr items, rest)
      | 'n' :: 'u' :: 'l' :: 'l' :: rest => .ok (.null, rest)
      | 't' :: 'r' :: 'u' :: 'e' :: rest => .ok (.bool true, rest)
      | 'f' :: 'a' :: 'l' :: 's' :: 'e' :: rest => .ok (.bool false, rest)
      | 'N' :: 'a' :: 'N' :: rest => .ok (.num (.float .nan), rest)
      | 'I' :: 'n' :: 'f' :: 'i' :: 'n' :: 'i' :: 't' :: 'y' :: rest =>
          .ok (.num (.float (.infinite false)), rest)
      | '-' :: 'I' :: 'n' :: 'f' :: 'i' :: 'n' :: 'i' :: 't' :: 'y' :: rest =>
          .ok (.num (.float (.infinite true)), rest)
      | text =>
          match scanNumber text with
          | some (n, rest) => .ok (.num n, rest)
          | none => .error "Expecting value"

/-- The items of a list, up to its closing bracket. -/
def scanItems : Nat → Scan (List Json)
  | 0, _ => .error "maximum recursion depth exceeded"
  | depth + 1, text => do
      let (item, rest) ← scanValue depth text
      match skipSpace rest with
      | ']' :: rest => return ([item], rest)
      | ',' :: rest => do
          let (items, rest) ← scanItems depth (skipSpace rest)
          return (item :: items, rest)
      | _ => .error "Expecting ',' delimiter"

/-- The entries of a dictionary behind those entered so far, up to its closing brace. -/
def scanEntries : Nat → List (String × Json) → Scan (List (String × Json))
  | 0, _, _ => .error "maximum recursion depth exceeded"
  | depth + 1, entered, text =>
      match text with
      | '"' :: rest => do
          let (key, rest) ← scanString rest
          match skipSpace rest with
          | ':' :: rest => do
              let (value, rest) ← scanValue depth (skipSpace rest)
              let entered := setEntry key value entered
              match skipSpace rest with
              | '}' :: rest => return (entered, rest)
              | ',' :: rest => scanEntries depth entered (skipSpace rest)
              | _ => .error "Expecting ',' delimiter"
          | _ => .error "Expecting ':' delimiter"
      | _ => .error "Expecting property name enclosed in double quotes"

end

/-- `json.loads`. -/
def loads (bytes : List UInt8) : Except String Json :=
  match decodeUtf8 bytes with
  | none => .error "'utf-8' codec can't decode"
  | some text => do
      let (value, rest) ← scanValue (2 * text.length + 2) (skipSpace text)
      if (skipSpace rest).isEmpty then return value else .error "Extra data"

end Json

end CheckpointEngine.Foundation
