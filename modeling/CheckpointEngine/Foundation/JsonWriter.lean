/-
  `Foundation.JsonWriter`: JSON values as text, and that reading the text gives the value
  back.

  The text is compact.  Floats have no text here, and a dictionary has each key once.
-/
import CheckpointEngine.Foundation.Fallible
import CheckpointEngine.Foundation.JsonText
import Mathlib.Data.List.Nodup

set_option autoImplicit false

namespace CheckpointEngine.Foundation

/-! ## Characters -/

/-- UTF-8 text. -/
def encodeUtf8 (text : List Char) : List UInt8 := text.flatMap String.utf8EncodeChar

theorem toNat_byte {n : Nat} (h : n < 0x100) : (UInt8.ofNat n).toNat = n := by
  rw [UInt8.toNat_ofNat', Nat.mod_eq_of_lt h]

theorem continuation_ofNat {n : Nat} (h : n < 0x40) :
    continuation (UInt8.ofNat (n + 0x80)) = some n := by
  have hin : 0x80 ≤ UInt8.ofNat (n + 0x80) ∧ UInt8.ofNat (n + 0x80) < 0xC0 := by
    rw [UInt8.le_iff_toNat_le, UInt8.lt_iff_toNat_lt, toNat_byte (by omega)]
    simp only [UInt8.reduceToNat]
    omega
  rw [continuation, if_pos hin, toNat_byte (by omega), Nat.add_sub_cancel]

/-- A character in two bytes and more is found again. -/
theorem scalar_toNat {c : Char} {least : Nat} (h : least ≤ c.toNat) :
    scalar least (some c.toNat) = some c := by
  have hvalid : least ≤ c.toNat ∧ c.toNat.isValidChar := ⟨h, c.valid⟩
  simp only [scalar, Option.bind_eq_bind, Option.bind_some, if_pos hvalid, Option.pure_def,
    Char.ofNat_toNat]

section Decoding

variable {a b c d : Nat} (rest : List UInt8)

theorem byte_lt {n k : Nat} (h : n < k) (hk : k < 0x100) : UInt8.ofNat n < UInt8.ofNat k := by
  rw [UInt8.lt_iff_toNat_lt, toNat_byte (by omega), toNat_byte hk]
  exact h

theorem byte_not_lt {n k : Nat} (h : k ≤ n) (hn : n < 0x100) :
    ¬ UInt8.ofNat n < UInt8.ofNat k := by
  rw [UInt8.lt_iff_toNat_lt, toNat_byte hn, toNat_byte (by omega)]
  exact Nat.not_lt.mpr h

theorem decodeUtf8_one (ha : a < 0x80) :
    decodeUtf8 (UInt8.ofNat a :: rest) = (decodeUtf8 rest).map (Char.ofNat a :: ·) := by
  have hlt : UInt8.ofNat a < 0x80 := @byte_lt _ 0x80 ha (by decide)
  conv_lhs => unfold decodeUtf8
  simp only [if_pos hlt, toNat_byte (show a < 0x100 by omega)]
  cases decodeUtf8 rest <;> rfl

theorem decodeUtf8_two (ha : a < 0x20) (hb : b < 0x40) :
    decodeUtf8 (UInt8.ofNat (a + 0xC0) :: UInt8.ofNat (b + 0x80) :: rest) =
      (scalar 0x80 (some (a * 0x40 + b))).bind fun c => (decodeUtf8 rest).map (c :: ·) := by
  have hone : ¬ UInt8.ofNat (a + 0xC0) < 0x80 := @byte_not_lt _ 0x80 (by omega) (by omega)
  have htwo : UInt8.ofNat (a + 0xC0) < 0xE0 := @byte_lt _ 0xE0 (by omega) (by decide)
  conv_lhs => unfold decodeUtf8
  simp only [if_neg hone, if_pos htwo, toNat_byte (show a + 0xC0 < 0x100 by omega),
    continuation_ofNat hb, Nat.add_sub_cancel, Option.bind_eq_bind, Option.bind_some,
    Option.pure_def]
  congr 1
  funext c
  cases decodeUtf8 rest <;> rfl

theorem decodeUtf8_three (ha : a < 0x10) (hb : b < 0x40) (hc : c < 0x40) :
    decodeUtf8 (UInt8.ofNat (a + 0xE0) :: UInt8.ofNat (b + 0x80) :: UInt8.ofNat (c + 0x80) ::
        rest) =
      (scalar 0x800 (some (a * 0x1000 + b * 0x40 + c))).bind fun c =>
        (decodeUtf8 rest).map (c :: ·) := by
  have hone : ¬ UInt8.ofNat (a + 0xE0) < 0x80 := @byte_not_lt _ 0x80 (by omega) (by omega)
  have htwo : ¬ UInt8.ofNat (a + 0xE0) < 0xE0 := @byte_not_lt _ 0xE0 (by omega) (by omega)
  have hthree : UInt8.ofNat (a + 0xE0) < 0xF0 := @byte_lt _ 0xF0 (by omega) (by decide)
  conv_lhs => unfold decodeUtf8
  simp only [if_neg hone, if_neg htwo, if_pos hthree, toNat_byte (show a + 0xE0 < 0x100 by omega),
    continuation_ofNat hb, continuation_ofNat hc, Nat.add_sub_cancel, Option.bind_eq_bind,
    Option.bind_some, Option.pure_def]
  congr 1
  funext c
  cases decodeUtf8 rest <;> rfl

theorem decodeUtf8_four (ha : a < 0x08) (hb : b < 0x40) (hc : c < 0x40) (hd : d < 0x40) :
    decodeUtf8 (UInt8.ofNat (a + 0xF0) :: UInt8.ofNat (b + 0x80) :: UInt8.ofNat (c + 0x80) ::
        UInt8.ofNat (d + 0x80) :: rest) =
      (scalar 0x10000 (some (a * 0x40000 + b * 0x1000 + c * 0x40 + d))).bind fun c =>
        (decodeUtf8 rest).map (c :: ·) := by
  have hone : ¬ UInt8.ofNat (a + 0xF0) < 0x80 := @byte_not_lt _ 0x80 (by omega) (by omega)
  have htwo : ¬ UInt8.ofNat (a + 0xF0) < 0xE0 := @byte_not_lt _ 0xE0 (by omega) (by omega)
  have hthree : ¬ UInt8.ofNat (a + 0xF0) < 0xF0 := @byte_not_lt _ 0xF0 (by omega) (by omega)
  conv_lhs => unfold decodeUtf8
  simp only [if_neg hone, if_neg htwo, if_neg hthree, toNat_byte (show a + 0xF0 < 0x100 by omega),
    continuation_ofNat hb, continuation_ofNat hc, continuation_ofNat hd, Nat.add_sub_cancel,
    Option.bind_eq_bind, Option.bind_some, Option.pure_def]
  congr 1
  funext c
  cases decodeUtf8 rest <;> rfl

end Decoding

/-- A character takes the bytes off the front that it was written as. -/
theorem decodeUtf8_char (c : Char) (rest : List UInt8) :
    decodeUtf8 (String.utf8EncodeChar c ++ rest) = (decodeUtf8 rest).map (c :: ·) := by
  have hval : c.val.toNat = c.toNat := rfl
  have hmax : c.toNat < 0x110000 := by
    have hvalid := c.valid
    simp only [UInt32.isValidChar, Nat.isValidChar, hval] at hvalid
    omega
  unfold String.utf8EncodeChar
  simp only [hval]
  split
  · rw [List.singleton_append, decodeUtf8_one rest (by omega), Char.ofNat_toNat]
  split
  · have hcode : c.toNat / 64 % 0x20 * 0x40 + c.toNat % 0x40 = c.toNat := by omega
    simp only [List.cons_append, List.nil_append]
    rw [decodeUtf8_two rest (Nat.mod_lt _ (by decide)) (Nat.mod_lt _ (by decide)), hcode,
      scalar_toNat (by omega), Option.bind_some]
  split
  · have hcode : c.toNat / 4096 % 0x10 * 0x1000 + c.toNat / 64 % 0x40 * 0x40 + c.toNat % 0x40 =
        c.toNat := by omega
    simp only [List.cons_append, List.nil_append]
    rw [decodeUtf8_three rest (Nat.mod_lt _ (by decide)) (Nat.mod_lt _ (by decide))
      (Nat.mod_lt _ (by decide)), hcode, scalar_toNat (by omega), Option.bind_some]
  · have hcode : c.toNat / 262144 % 0x08 * 0x40000 + c.toNat / 4096 % 0x40 * 0x1000 +
        c.toNat / 64 % 0x40 * 0x40 + c.toNat % 0x40 = c.toNat := by omega
    simp only [List.cons_append, List.nil_append]
    rw [decodeUtf8_four rest (Nat.mod_lt _ (by decide)) (Nat.mod_lt _ (by decide))
      (Nat.mod_lt _ (by decide)) (Nat.mod_lt _ (by decide)), hcode, scalar_toNat (by omega),
      Option.bind_some]

/-- Text is read back from its bytes. -/
theorem decodeUtf8_encodeUtf8 (text : List Char) : decodeUtf8 (encodeUtf8 text) = some text := by
  induction text with
  | nil => rfl
  | cons c rest ih =>
      rw [encodeUtf8, List.flatMap_cons, decodeUtf8_char]
      exact congrArg (Option.map (c :: ·)) ih

namespace Json

/-! ## Strings -/

/-- A character in a string. -/
def writeChar (c : Char) : List Char :=
  if c = '"' then ['\\', '"']
  else if c = '\\' then ['\\', '\\']
  else if c.toNat < 0x20 then
    ['\\', 'u', '0', '0', Nat.digitChar (c.toNat / 16), Nat.digitChar (c.toNat % 16)]
  else [c]

/-- A string with its quotes. -/
def writeString (s : String) : List Char := '"' :: s.toList.flatMap writeChar ++ ['"']

theorem hexDigit_digitChar : ∀ n < 16, hexDigit (Nat.digitChar n) = some n := by decide

/-- A character is scanned as its code point. -/
theorem scanUnits_writeChar (c : Char) (rest : List Char) :
    scanUnits (writeChar c ++ rest) = do
      let (units, rest) ← scanUnits rest
      return (c.toNat :: units, rest) := by
  unfold writeChar
  split
  · next hquote =>
      rw [hquote]
      rfl
  split
  · next hslash =>
      rw [hslash]
      rfl
  split
  · next hcontrol =>
      have hunit : codeUnit '0' '0' (Nat.digitChar (c.toNat / 16))
          (Nat.digitChar (c.toNat % 16)) = some c.toNat := by
        rw [codeUnit, hexDigit_digitChar _ (by omega), hexDigit_digitChar _ (by omega)]
        refine congrArg some ?_
        change ((0 * 16 + 0) * 16 + c.toNat / 16) * 16 + c.toNat % 16 = c.toNat
        omega
      simp only [List.cons_append, List.nil_append]
      rw [scanUnits, hunit]
  · next hquote hslash hcontrol =>
      rw [List.singleton_append, scanUnits]
      · rw [if_neg hcontrol]
      · exact hquote
      · exact fun _ _ _ _ _ heq => absurd heq hslash
      · exact fun _ _ heq => absurd heq hslash

theorem scanUnits_flatMap (text rest : List Char) :
    scanUnits (text.flatMap writeChar ++ '"' :: rest) = .ok (text.map Char.toNat, rest) := by
  induction text with
  | nil => rfl
  | cons c text ih =>
      rw [List.flatMap_cons, List.append_assoc, scanUnits_writeChar, ih]
      rfl

/-- The code points of characters are no surrogates. -/
theorem joinSurrogates_map_toNat (text : List Char) :
    joinSurrogates (text.map Char.toNat) = .ok text := by
  induction text with
  | nil => rfl
  | cons c rest ih =>
      have hvalid : c.toNat.isValidChar := c.valid
      cases rest with
      | nil =>
          rw [List.map_singleton, joinSurrogates, if_pos hvalid, Char.ofNat_toNat]
      | cons next rest =>
          have hsingle : ¬ (0xD800 ≤ c.toNat ∧ c.toNat < 0xDC00 ∧ 0xDC00 ≤ next.toNat ∧
              next.toNat < 0xE000) := by
            simp only [Nat.isValidChar] at hvalid
            omega
          rw [List.map_cons, List.map_cons, joinSurrogates, if_neg hsingle, if_pos hvalid,
            ← List.map_cons, ih, Char.ofNat_toNat]
          rfl

/-- A string is scanned up to its closing quote. -/
theorem scanString_write (s : String) (rest : List Char) :
    scanString (s.toList.flatMap writeChar ++ '"' :: rest) = .ok (s, rest) := by
  rw [scanString, scanUnits_flatMap]
  change (do return (String.ofList (← joinSurrogates (s.toList.map Char.toNat)), rest)) = _
  rw [joinSurrogates_map_toNat]
  exact congrArg (fun s => Except.ok (s, rest)) (String.ofList_toList)

/-! ## Numbers -/

/-- An integer. -/
def writeInt (n : Int) : List Char :=
  if n < 0 then '-' :: Nat.toDigits 10 n.natAbs else Nat.toDigits 10 n.natAbs

/-- What may stand behind a value. -/
def Ends (rest : List Char) : Prop := ∀ c ∈ rest.head?, c = ',' ∨ c = ']' ∨ c = '}'

theorem digitsValue_toDigits (n : Nat) : digitsValue (Nat.toDigits 10 n) = n :=
  Nat.ofDigitChars_toDigits (by decide) (by decide)

theorem isDigit_of_mem_toDigits {n : Nat} {c : Char} (h : c ∈ Nat.toDigits 10 n) :
    c.isDigit = true := Nat.isDigit_of_mem_toDigits (by decide) (by decide) h

theorem exists_toDigits (n : Nat) : ∃ c tail, Nat.toDigits 10 n = c :: tail ∧ c.isDigit = true := by
  obtain ⟨c, tail, hdigits⟩ := List.exists_cons_of_ne_nil (@Nat.toDigits_ne_nil n 10)
  refine ⟨c, tail, hdigits, @isDigit_of_mem_toDigits n c ?_⟩
  rw [hdigits]
  exact List.mem_cons_self

/-- A number that is not zero does not begin with a zero. -/
theorem head_toDigits {n : Nat} (h : 0 < n) : ∀ c ∈ (Nat.toDigits 10 n).head?, c ≠ '0' := by
  induction n using Nat.strongRecOn with
  | ind n ih =>
      rcases Nat.lt_or_ge n 10 with hlt | hge
      · rw [Nat.toDigits_of_lt_base hlt]
        intro c hc
        obtain rfl := Option.some.inj hc
        rw [ne_eq, Nat.digitChar_eq_zero]
        omega
      · rw [Nat.toDigits_of_base_le (by decide) hge,
          List.head?_append_of_ne_nil _ Nat.toDigits_ne_nil]
        exact ih (n / 10) (by omega) (by omega)

section Numbers

variable {rest : List Char}

theorem Ends.takeWhile_isDigit (h : Ends rest) : rest.takeWhile Char.isDigit = [] := by
  cases rest with
  | nil => rfl
  | cons c rest =>
      refine List.takeWhile_cons_of_neg ?_
      rcases h c rfl with rfl | rfl | rfl <;> decide

theorem Ends.scanFraction (h : Ends rest) : scanFraction rest = ([], rest) := by
  cases rest with
  | nil => rfl
  | cons c rest => rcases h c rfl with rfl | rfl | rfl <;> rfl

theorem Ends.scanExponent (h : Ends rest) : scanExponent rest = none := by
  cases rest with
  | nil => rfl
  | cons c rest => rcases h c rfl with rfl | rfl | rfl <;> rfl

theorem scanDigits_toDigits (h : Ends rest) (n : Nat) :
    scanDigits (Nat.toDigits 10 n ++ rest) = some (Nat.toDigits 10 n, rest) := by
  have hdigits : (Nat.toDigits 10 n ++ rest).takeWhile Char.isDigit = Nat.toDigits 10 n := by
    rw [List.takeWhile_append_of_pos fun _ hc => isDigit_of_mem_toDigits hc,
      h.takeWhile_isDigit, List.append_nil]
  have hne : (Nat.toDigits 10 n).isEmpty = false := by
    rw [List.isEmpty_eq_false_iff]
    exact Nat.toDigits_ne_nil
  simp only [scanDigits, hdigits, hne, Bool.false_eq_true, if_false, List.drop_left]

theorem scanWhole_toDigits (h : Ends rest) (n : Nat) :
    scanWhole (Nat.toDigits 10 n ++ rest) = some (Nat.toDigits 10 n, rest) := by
  rcases Nat.eq_zero_or_pos n with rfl | hpos
  · rfl
  · rw [scanWhole]
    · exact scanDigits_toDigits h n
    · intro tail htail
      have hhead := head_toDigits hpos '0'
      rw [← List.head?_append_of_ne_nil _ Nat.toDigits_ne_nil, htail] at hhead
      exact hhead rfl rfl

theorem scanUnsigned_toDigits (h : Ends rest) (negative : Bool) (n : Nat) :
    scanUnsigned negative (Nat.toDigits 10 n ++ rest) =
      some (.int ((if negative then -1 else 1) * n), rest) := by
  simp only [scanUnsigned, scanWhole_toDigits h, h.scanFraction, h.scanExponent,
    digitsValue_toDigits, Option.bind_eq_bind, Option.bind_some]
  rfl

/-- An integer is scanned up to what ends it. -/
theorem scanNumber_writeInt (h : Ends rest) (n : Int) :
    scanNumber (writeInt n ++ rest) = some (.int n, rest) := by
  unfold writeInt
  split
  · next hneg =>
      rw [List.cons_append, scanNumber, scanUnsigned_toDigits h]
      simp only [if_true]
      congr 3
      omega
  · next hnonneg =>
      rw [scanNumber]
      · rw [scanUnsigned_toDigits h]
        simp only [Bool.false_eq_true, if_false]
        congr 3
        omega
      · intro tail htail
        obtain ⟨c, digits, hdigits, hc⟩ := exists_toDigits n.natAbs
        rw [hdigits, List.cons_append, List.cons.injEq] at htail
        rw [htail.1] at hc
        exact absurd hc (by decide)

end Numbers

/-! ## Values -/

mutual

/-- The text of a value. -/
def write : Json → List Char
  | .null => ['n', 'u', 'l', 'l']
  | .bool true => ['t', 'r', 'u', 'e']
  | .bool false => ['f', 'a', 'l', 's', 'e']
  | .num (.int n) => writeInt n
  | .num (.float _) => ['N', 'a', 'N']
  | .str s => writeString s
  | .arr [] => ['[', ']']
  | .arr (item :: rest) => '[' :: write item ++ writeItems rest
  | .obj [] => ['{', '}']
  | .obj ((key, value) :: rest) =>
      '{' :: writeString key ++ ':' :: write value ++ writeEntries rest

/-- Further items of a list, and its closing bracket. -/
def writeItems : List Json → List Char
  | [] => [']']
  | item :: rest => ',' :: write item ++ writeItems rest

/-- Further entries of a dictionary, and its closing brace. -/
def writeEntries : List (String × Json) → List Char
  | [] => ['}']
  | (key, value) :: rest => ',' :: writeString key ++ ':' :: write value ++ writeEntries rest

end

/-- `json.dumps`, without white space. -/
def dumps (value : Json) : List UInt8 := encodeUtf8 value.write

/-- There are no floats in the value, and every dictionary has its keys once. -/
inductive Plain : Json → Prop where
  | null : Plain .null
  | bool (value : Bool) : Plain (.bool value)
  | int (n : Int) : Plain (.num (.int n))
  | str (text : String) : Plain (.str text)
  | arr {items : List Json} : (∀ item ∈ items, Plain item) → Plain (.arr items)
  | obj {entries : List (String × Json)} : (entries.map Prod.fst).Nodup →
      (∀ entry ∈ entries, Plain entry.2) → Plain (.obj entries)

/-- The character is no white space and no closing bracket. -/
def Begins (c : Char) : Prop := c ∉ [' ', '\t', '\n', '\r', ']']

instance (c : Char) : Decidable (Begins c) := inferInstanceAs (Decidable (_ ∉ _))

theorem begins_of_isDigit {c : Char} (h : c.isDigit = true) : Begins c := by
  intro hc
  have hnone : ∀ c ∈ [' ', '\t', '\n', '\r', ']'], c.isDigit = false := by simp [Char.isDigit]
  rw [hnone c hc] at h
  cases h

theorem exists_writeInt (n : Int) : ∃ c tail, writeInt n = c :: tail ∧ Begins c := by
  unfold writeInt
  split
  · exact ⟨_, _, rfl, by decide⟩
  · obtain ⟨c, tail, hdigits, hc⟩ := exists_toDigits n.natAbs
    exact ⟨c, tail, hdigits, begins_of_isDigit hc⟩

theorem Plain.exists_write {value : Json} (h : value.Plain) :
    ∃ c tail, value.write = c :: tail ∧ Begins c := by
  cases h with
  | null => exact ⟨_, _, rfl, by decide⟩
  | bool value => cases value <;> exact ⟨_, _, rfl, by decide⟩
  | int n => exact exists_writeInt n
  | str text => exact ⟨_, _, rfl, by decide⟩
  | @arr items _ => cases items <;> exact ⟨_, _, rfl, by decide⟩
  | @obj entries _ _ =>
      cases entries with
      | nil => exact ⟨_, _, rfl, by decide⟩
      | cons entry rest => exact ⟨_, _, rfl, by decide⟩

theorem Begins.skipSpace {c : Char} (h : Begins c) (rest : List Char) :
    skipSpace (c :: rest) = c :: rest := by
  simp only [Begins, List.mem_cons, not_or] at h
  simp [Json.skipSpace, h]

/-- Nothing is skipped before a value. -/
theorem Plain.skipSpace {value : Json} (h : value.Plain) (rest : List Char) :
    skipSpace (value.write ++ rest) = value.write ++ rest := by
  obtain ⟨c, tail, hwrite, hc⟩ := h.exists_write
  rw [hwrite, List.cons_append, hc.skipSpace]

theorem ends_writeItems (items : List Json) (rest : List Char) :
    Ends (writeItems items ++ rest) := by
  cases items with
  | nil => simp [writeItems, Ends]
  | cons item items => simp [writeItems, Ends]

theorem ends_writeEntries (entries : List (String × Json)) (rest : List Char) :
    Ends (writeEntries entries ++ rest) := by
  cases entries with
  | nil => simp [writeEntries, Ends]
  | cons entry entries => simp [writeEntries, Ends]

/-- A new key is entered behind the others. -/
theorem setEntry_of_notMem {key : String} {value : Json} {entered : List (String × Json)}
    (h : key ∉ entered.map Prod.fst) : setEntry key value entered = entered ++ [(key, value)] := by
  induction entered with
  | nil => rfl
  | cons entry rest ih =>
      rw [List.map_cons, List.mem_cons, not_or] at h
      rw [setEntry, if_neg (Ne.symm h.1), ih h.2, List.cons_append]

/-! ## Scanning what has been written -/

section Scanning

variable {depth : Nat} {text rest rest' : List Char} {item value : Json} {key : String}
  {items : List Json} {entered entries : List (String × Json)}

theorem scanItems_last (hitem : scanValue depth text = .ok (item, ']' :: rest)) :
    scanItems (depth + 1) text = .ok ([item], rest) := by
  rw [scanItems, hitem]
  rfl

theorem scanItems_more (hitem : scanValue depth text = .ok (item, ',' :: rest))
    (hitems : scanItems depth (skipSpace rest) = .ok (items, rest')) :
    scanItems (depth + 1) text = .ok (item :: items, rest') := by
  rw [scanItems, hitem]
  exact bind_of_ok hitems _

theorem scanEntries_last (hkey : scanString text = .ok (key, ':' :: rest))
    (hvalue : scanValue depth (skipSpace rest) = .ok (value, '}' :: rest')) :
    scanEntries (depth + 1) entered ('"' :: text) = .ok (setEntry key value entered, rest') := by
  rw [scanEntries, hkey]
  exact bind_of_ok hvalue _

theorem scanEntries_more (hkey : scanString text = .ok (key, ':' :: rest))
    (hvalue : scanValue depth (skipSpace rest) = .ok (value, ',' :: rest')) :
    scanEntries (depth + 1) entered ('"' :: text) =
      scanEntries depth (setEntry key value entered) (skipSpace rest') := by
  rw [scanEntries, hkey]
  exact bind_of_ok hvalue _

/-- What scanning to a depth is to find again. -/
structure ScansBack (depth : Nat) : Prop where
  value : ∀ {value : Json} {rest : List Char}, value.Plain → Ends rest →
    2 * value.write.length ≤ depth → scanValue depth (value.write ++ rest) = .ok (value, rest)
  items : ∀ {item : Json} {items : List Json} {rest : List Char}, item.Plain →
    (∀ x ∈ items, x.Plain) → 2 * (item.write ++ writeItems items).length ≤ depth →
    scanItems depth (item.write ++ writeItems items ++ rest) = .ok (item :: items, rest)
  entries : ∀ {key : String} {value : Json} {entries entered : List (String × Json)}
    {rest : List Char}, value.Plain → (∀ x ∈ entries, x.2.Plain) →
    ((entered ++ (key, value) :: entries).map Prod.fst).Nodup →
    2 * (writeString key ++ ':' :: value.write ++ writeEntries entries).length ≤ depth →
    scanEntries depth entered
        (writeString key ++ ':' :: value.write ++ writeEntries entries ++ rest) =
      .ok (entered ++ (key, value) :: entries, rest)

theorem ScansBack.items_succ (h : ScansBack depth) (hitem : item.Plain)
    (hitems : ∀ x ∈ items, x.Plain)
    (hdepth : 2 * (item.write ++ writeItems items).length ≤ depth + 1) :
    scanItems (depth + 1) (item.write ++ writeItems items ++ rest) = .ok (item :: items, rest) := by
  rw [List.append_assoc]
  cases items with
  | nil =>
      simp only [writeItems, List.length_append, List.length_singleton] at hdepth
      exact scanItems_last (h.value hitem (ends_writeItems [] rest) (by omega))
  | cons next items =>
      obtain ⟨hnext, hrest⟩ := List.forall_mem_cons.mp hitems
      simp only [writeItems, List.length_append, List.length_cons] at hdepth
      refine scanItems_more (h.value hitem (ends_writeItems _ _) (by omega)) ?_
      change scanItems depth (skipSpace (next.write ++ writeItems items ++ rest)) = _
      rw [List.append_assoc, hnext.skipSpace, ← List.append_assoc]
      refine h.items hnext hrest ?_
      rw [List.length_append]
      omega

theorem ScansBack.entries_succ (h : ScansBack depth) (hvalue : value.Plain)
    (hentries : ∀ x ∈ entries, x.2.Plain)
    (hkeys : ((entered ++ (key, value) :: entries).map Prod.fst).Nodup)
    (hdepth : 2 * (writeString key ++ ':' :: value.write ++ writeEntries entries).length ≤
      depth + 1) :
    scanEntries (depth + 1) entered
        (writeString key ++ ':' :: value.write ++ writeEntries entries ++ rest) =
      .ok (entered ++ (key, value) :: entries, rest) := by
  have hentered : setEntry key value entered = entered ++ [(key, value)] := by
    refine setEntry_of_notMem fun hmem => ?_
    rw [List.map_append, List.nodup_append] at hkeys
    exact hkeys.2.2 key hmem key List.mem_cons_self rfl
  have htext : writeString key ++ ':' :: value.write ++ writeEntries entries ++ rest =
      '"' :: (key.toList.flatMap writeChar ++ '"' :: ':' ::
        (value.write ++ (writeEntries entries ++ rest))) := by
    simp [writeString]
  have hlength : 2 * value.write.length + 2 * (writeEntries entries).length ≤ depth := by
    simp only [writeString, List.length_append, List.length_cons] at hdepth
    omega
  have hfound := h.value hvalue (ends_writeEntries entries rest) (by omega)
  rw [← hvalue.skipSpace] at hfound
  rw [htext]
  cases entries with
  | nil =>
      rw [scanEntries_last (scanString_write key _) hfound, hentered]
      rfl
  | cons next entries =>
      obtain ⟨hnext, hrest⟩ := List.forall_mem_cons.mp hentries
      rw [scanEntries_more (scanString_write key _) hfound, hentered]
      have hmore := @ScansBack.entries depth h next.1 next.2 entries (entered ++ [(key, value)])
        rest hnext hrest (by rwa [List.append_assoc]) (by
          simp only [writeEntries, List.length_cons, List.length_append] at hlength ⊢
          omega)
      rw [List.append_assoc entered] at hmore
      exact hmore

theorem scanValue_arr (hskip : skipSpace text = text) (hclose : text.head? ≠ some ']')
    (hitems : scanItems depth text = .ok (items, rest)) :
    scanValue (depth + 1) ('[' :: text) = .ok (.arr items, rest) := by
  rw [scanValue, hskip]
  split
  · exact absurd rfl hclose
  · exact bind_of_ok hitems _

theorem scanValue_num {n : Number} (hscan : scanNumber text = some (n, rest))
    (hhead : ∀ c ∈ text.head?, c = '-' ∨ c.isDigit = true)
    (htail : ∀ rest, text ≠ '-' :: 'I' :: rest) :
    scanValue (depth + 1) text = .ok (.num n, rest) := by
  have hno : ∀ c rest, ¬ (c = '-' ∨ c.isDigit = true) → text ≠ c :: rest := by
    intro c rest hc htext
    rw [htext] at hhead
    exact hc (hhead c rfl)
  -- no other kind of value begins like a number
  rw [scanValue]
  · rw [hscan]
  case x_10 => exact fun _ htext => htail _ htext
  all_goals exact fun _ htext => hno _ _ (by decide) htext

theorem ScansBack.value_succ (h : ScansBack depth) (hvalue : value.Plain) (hrest : Ends rest)
    (hdepth : 2 * value.write.length ≤ depth + 1) :
    scanValue (depth + 1) (value.write ++ rest) = .ok (value, rest) := by
  cases hvalue with
  | null => rfl
  | bool value => cases value <;> rfl
  | int n =>
      obtain ⟨c, tail, hdigits, hc⟩ := exists_toDigits n.natAbs
      refine scanValue_num (scanNumber_writeInt hrest n) ?_ ?_
      · rw [write, writeInt, hdigits]
        split
        · exact fun _ hhead => .inl (Option.some.inj hhead).symm
        · exact fun _ hhead => .inr (Option.some.inj hhead ▸ hc)
      · rw [write, writeInt, hdigits]
        intro rest htext
        split at htext
        · simp only [List.cons_append, List.cons.injEq, true_and] at htext
          rw [htext.1] at hc
          exact absurd hc (by decide)
        · simp only [List.cons_append, List.cons.injEq] at htext
          rw [htext.1] at hc
          exact absurd hc (by decide)
  | str text =>
      have htext : (Json.str text).write ++ rest =
          '"' :: (text.toList.flatMap writeChar ++ '"' :: rest) := by
        simp [write, writeString]
      rw [htext, scanValue, scanString_write]
      rfl
  | @arr items hitems =>
      cases items with
      | nil => rfl
      | cons item items =>
          obtain ⟨hitem, hmore⟩ := List.forall_mem_cons.mp hitems
          have hlength : (Json.arr (item :: items)).write.length =
              (item.write ++ writeItems items).length + 1 := by simp [write]
          have hfound := @ScansBack.items depth h item items rest hitem hmore (by omega)
          have hclose : (item.write ++ writeItems items ++ rest).head? ≠ some ']' := by
            obtain ⟨c, tail, htext, hc⟩ := hitem.exists_write
            rw [htext]
            intro hhead
            obtain rfl : c = ']' := Option.some.inj hhead
            exact absurd hc (by decide)
          have hskip : skipSpace (item.write ++ writeItems items ++ rest) =
              item.write ++ writeItems items ++ rest := by
            rw [List.append_assoc, hitem.skipSpace]
          exact scanValue_arr hskip hclose hfound
  | @obj entries hkeys hentries =>
      cases entries with
      | nil => rfl
      | cons entry entries =>
          obtain ⟨hentry, hmore⟩ := List.forall_mem_cons.mp hentries
          have hlength : (Json.obj (entry :: entries)).write.length =
              (writeString entry.1 ++ ':' :: entry.2.write ++ writeEntries entries).length + 1 := by
            simp [write]
          have hfound := @ScansBack.entries depth h entry.1 entry.2 entries [] rest hentry hmore
            hkeys (by omega)
          exact bind_of_ok hfound _

/-- A text of any length is scanned back to a depth of twice that. -/
theorem scansBack (depth : Nat) : ScansBack depth := by
  induction depth with
  | zero =>
      constructor
      · intro value rest hvalue _ hdepth
        obtain ⟨c, tail, htext, -⟩ := hvalue.exists_write
        rw [htext, List.length_cons] at hdepth
        omega
      · intro item items rest hitem _ hdepth
        obtain ⟨c, tail, htext, -⟩ := hitem.exists_write
        rw [htext, List.length_append, List.length_cons] at hdepth
        omega
      · intro key value entries entered rest _ _ _ hdepth
        simp only [writeString, List.length_append, List.length_cons] at hdepth
        omega
  | succ depth ih =>
      constructor
      · exact fun hvalue hrest hdepth => ih.value_succ hvalue hrest hdepth
      · exact fun hitem hitems hdepth => ih.items_succ hitem hitems hdepth
      · exact fun hvalue hentries hkeys hdepth => ih.entries_succ hvalue hentries hkeys hdepth

end Scanning

/-- Reading what has been written gives the value back. -/
theorem loads_dumps {value : Json} (h : value.Plain) : loads (dumps value) = .ok value := by
  have hskip : skipSpace value.write = value.write := by
    have happend := h.skipSpace []
    rwa [List.append_nil] at happend
  have hscan := @ScansBack.value (2 * value.write.length + 2) (scansBack _) value [] h
    (by simp [Ends]) (by omega)
  rw [List.append_nil] at hscan
  rw [loads, dumps, decodeUtf8_encodeUtf8]
  simp only [hskip, hscan]
  rfl

end Json

end CheckpointEngine.Foundation
