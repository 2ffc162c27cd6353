/-
  `Registry.Layout`: what the metas of a file pinned in place must say of its bytes, and
  for which files they do.

  The reader compares where an extent starts with where the one before it ends, and where
  the last one ends with the end of the file.  It compares no extent with the tensor that
  it holds.
-/
import CheckpointEngine.Registry.Safetensors

set_option autoImplicit false

namespace CheckpointEngine.Registry

open CheckpointEngine.Foundation

variable {δ : Type}

/-! ## Valid layouts -/

/-- The metas take the extents of the items, each from where the one before it ends, from
`offset` up to `nbytes`. -/
def Occupies (nbytes : Nat) : Int → List (String × Json) → List (ReadMeta δ) → Prop
  | offset, [], [] => offset = nbytes
  | offset, item :: items, param :: metas =>
      param.name = item.1 ∧
        offsets item.2 = some (((offset : Int) : Rat), ((offset + param.alignedSize : Int) : Rat)) ∧
        0 ≤ param.alignedSize ∧ Occupies nbytes (offset + param.alignedSize) items metas
  | _, _, _ => False

/-- What a buffer that is returned says of the file: the header lies inside it, and the
tensors fill the bytes behind the header, each the room it needs. -/
structure ValidLayout (libs : Libraries δ) (content : List UInt8) (b : ReadBuffer δ) : Prop where
  header_inside : startPos content ≤ content.length
  data : b.buffer = dataSection content
  tiles : ∃ items, readHeader libs content = .ok items ∧
    Occupies b.buffer.length 0 (inOrder items) b.metas
  spans : ∀ param ∈ b.metas,
    param.alignedSize = libs.itemsize param.dtype * param.shape.prod

/-- A file for which a buffer is returned only with a valid layout, whatever `os.remove`
and `_pin` do. -/
def AcceptsOnlyValid (libs : Libraries δ) (content : List UInt8) : Prop :=
  ∀ removeRaises pinRaises b,
    parseAndPinFromSafetensors libs removeRaises pinRaises content = .ok b →
      ValidLayout libs content b

/-- The room of a tensor behind the tensors before it. -/
def startOf (metas : List (ReadMeta δ)) (k : Nat) : Int :=
  ((metas.take k).map ReadMeta.alignedSize).sum

theorem Occupies.startOf_le {nbytes : Nat} {offset : Int} {items : List (String × Json)}
    {metas : List (ReadMeta δ)} (h : Occupies nbytes offset items metas) (k : Nat) :
    offset + startOf metas k ≤ nbytes := by
  induction metas generalizing offset items k with
  | nil =>
      cases items with
      | nil =>
          obtain rfl : offset = nbytes := h
          simp [startOf]
      | cons item items => cases h
  | cons first rest ih =>
      cases items with
      | nil => cases h
      | cons item items =>
          obtain ⟨-, -, hnonneg, hrest⟩ := h
          cases k with
          | zero =>
              have hall := ih hrest 0
              simp only [startOf, List.take_zero, List.map_nil, List.sum_nil] at hall ⊢
              omega
          | succ k =>
              have hall := ih hrest k
              simp only [startOf, List.take_succ_cons, List.map_cons, List.sum_cons] at hall ⊢
              omega

theorem Occupies.nonneg {nbytes : Nat} {offset : Int} {items : List (String × Json)}
    {metas : List (ReadMeta δ)} (h : Occupies nbytes offset items metas) :
    ∀ param ∈ metas, 0 ≤ param.alignedSize := by
  induction metas generalizing offset items with
  | nil => simp
  | cons first rest ih =>
      cases items with
      | nil => cases h
      | cons item items =>
          obtain ⟨-, -, hnonneg, hrest⟩ := h
          intro param hparam
          rcases List.mem_cons.mp hparam with rfl | hmem
          · exact hnonneg
          · exact ih hrest param hmem

/-- What the worker slices for a tensor ends where the next one starts, and in the bucket. -/
theorem ValidLayout.slice {libs : Libraries δ} {content : List UInt8} {b : ReadBuffer δ}
    (h : ValidLayout libs content b) {k : Nat} {param : ReadMeta δ}
    (hk : b.metas[k]? = some param) :
    startOf b.metas k + libs.itemsize param.dtype * param.shape.prod = startOf b.metas (k + 1) ∧
      startOf b.metas (k + 1) ≤ b.buffer.length := by
  obtain ⟨items, -, hoccupies⟩ := h.tiles
  constructor
  · rw [← h.spans param (List.mem_of_getElem? hk)]
    simp [startOf, List.take_add_one, hk]
  · simpa using hoccupies.startOf_le (k + 1)

/-! ## Regular files -/

/-- How far an extent reaches. -/
def span (entry : Json) : Option Rat := (offsets entry).map fun x => x.2 - x.1

/-- What the reader does not ask of a file that it accepts: the length field does not point
behind the end of the file; every extent is as long as its tensor; no offset is a float so
large that a difference is rounded; the last extent does not end before it starts. -/
structure Regular (libs : Libraries δ) (content : List UInt8) : Prop where
  header_inside : startPos content ≤ content.length
  spans : ∀ items, readHeader libs content = .ok items → ∀ item ∈ items, ∀ size,
    tensorSize libs item.2 = .ok size → span item.2 = some (size : Rat)
  exact : ∀ items, readHeader libs content = .ok items → ∀ item ∈ items, ∀ start stop size,
    getItem "data_offsets" item.2 = .ok (.arr [start, stop]) →
      extentSize libs start stop = .ok size → span item.2 = some (size : Rat)
  upright : ∀ items, readHeader libs content = .ok items → ∀ item,
    (inOrder items).getLast? = some item → ∀ size, span item.2 = some size → 0 ≤ size

variable {libs : Libraries δ}

/-- In the order of their offsets, only the last of the extents that follow each other can
end before it starts. -/
theorem Chained.span_nonneg {a z : Rat} {items : List (String × Json)}
    (h : Chained libs z a items) (hsorted : items.Pairwise fun x y => sortKey x ≤ sortKey y)
    (hlast : ∀ item, items.getLast? = some item → ∀ size, span item.2 = some size → 0 ≤ size) :
    ∀ item ∈ items, ∀ size, span item.2 = some size → 0 ≤ size := by
  induction items generalizing a with
  | nil => simp
  | cons first rest ih =>
      obtain ⟨stop, hoffsets, -, hchained⟩ := h
      obtain ⟨hfirst, hrest⟩ := List.pairwise_cons.mp hsorted
      cases rest with
      | nil =>
          intro item hitem
          obtain rfl := List.mem_singleton.mp hitem
          exact hlast item rfl
      | cons second rest =>
          have htail := ih hchained hrest fun item hitem => hlast item (by
            rw [List.getLast?_cons_cons]
            exact hitem)
          intro item hitem size hsize
          rcases List.mem_cons.mp hitem with rfl | hmem
          · obtain ⟨stop', hoffsets', -, -⟩ := hchained
            have hle : toLex (a, stop) ≤ toLex (stop, stop') := by
              simpa [sortKey, hoffsets, hoffsets'] using hfirst second List.mem_cons_self
            have hstart : a ≤ stop := by
              rcases Prod.Lex.toLex_le_toLex.mp hle with hlt | ⟨heq, _⟩
              · exact hlt.le
              · exact heq.le
            obtain rfl : stop - a = size := by simpa [span, hoffsets] using hsize
            exact sub_nonneg.mpr hstart
          · exact htail item hmem size hsize

/-- The metas read from regular items are those of the extents. -/
theorem Chained.occupies {nbytes : Nat} {offset : Int} {items : List (String × Json)}
    {metas : List (ReadMeta δ)} (h : Chained libs nbytes offset items)
    (hread : List.Forall₂ (fun item param => readEntry libs item = .ok param) items metas)
    (hexact : ∀ item ∈ items, ∀ param, readEntry libs item = .ok param →
      span item.2 = some (param.alignedSize : Rat))
    (hnonneg : ∀ item ∈ items, ∀ size, span item.2 = some size → 0 ≤ size) :
    Occupies nbytes offset items metas := by
  induction hread generalizing offset with
  | nil =>
      have hend : (offset : Rat) = nbytes := h
      have : offset = nbytes := by exact_mod_cast hend
      exact this
  | @cons item param items metas hentry hrest ih =>
      obtain ⟨stop, hoffsets, -, hchained⟩ := h
      have hspan := hexact item List.mem_cons_self param hentry
      have hstop : stop = ((offset + param.alignedSize : Int) : Rat) := by
        have hsize : stop - offset = param.alignedSize := by
          simpa [span, hoffsets] using hspan
        rw [Int.cast_add, ← hsize]
        ring
      have hsize : (0 : Rat) ≤ param.alignedSize := hnonneg item List.mem_cons_self _ hspan
      obtain ⟨value, hvalue, hparam⟩ := bind_eq_ok.mp hentry
      obtain ⟨⟨start, stop'⟩, hpair, hparam⟩ := bind_eq_ok.mp hparam
      refine ⟨(readMeta_ok hparam).1, hstop ▸ hoffsets, by exact_mod_cast hsize, ih ?_ ?_ ?_⟩
      · exact hstop ▸ hchained
      · exact fun other hother => hexact other (List.mem_cons_of_mem _ hother)
      · exact fun other hother => hnonneg other (List.mem_cons_of_mem _ hother)

/-- Each item has a meta, which takes its extent. -/
theorem Occupies.meta_of {nbytes : Nat} {offset : Int} {items : List (String × Json)}
    {metas : List (ReadMeta δ)} (h : Occupies nbytes offset items metas)
    (hread : List.Forall₂ (fun item param => readEntry libs item = .ok param) items metas) :
    ∀ item ∈ items, ∃ param ∈ metas, readEntry libs item = .ok param ∧
      span item.2 = some (param.alignedSize : Rat) ∧ 0 ≤ param.alignedSize := by
  induction hread generalizing offset with
  | nil => simp
  | @cons first param items metas hentry hrest ih =>
      obtain ⟨-, hoffsets, hnonneg, hoccupies⟩ := h
      intro item hitem
      rcases List.mem_cons.mp hitem with rfl | hmem
      · refine ⟨param, List.mem_cons_self, hentry, ?_, hnonneg⟩
        rw [span, hoffsets, Option.map_some, Int.cast_add, add_sub_cancel_left]
      · obtain ⟨other, hother, hall⟩ := ih hoccupies item hmem
        exact ⟨other, List.mem_cons_of_mem _ hother, hall⟩

theorem readEntry_ok {item : String × Json} {param : ReadMeta δ}
    (h : readEntry libs item = .ok param) :
    tensorSize libs item.2 = .ok (libs.itemsize param.dtype * param.shape.prod) ∧
      ∀ start stop, getItem "data_offsets" item.2 = .ok (.arr [start, stop]) →
        extentSize libs start stop = .ok param.alignedSize := by
  obtain ⟨value, hvalue, h⟩ := bind_eq_ok.mp h
  obtain ⟨⟨start, stop⟩, hpair, h⟩ := bind_eq_ok.mp h
  obtain ⟨-, hsize, htensor⟩ := readMeta_ok h
  refine ⟨htensor, fun start' stop' hvalue' => ?_⟩
  obtain rfl := Except.ok.inj (hvalue.symm.trans hvalue')
  obtain ⟨rfl, rfl⟩ := Prod.mk.inj (Except.ok.inj hpair)
  exact hsize

/-- What a buffer that is returned was parsed from, before the file was removed. -/
theorem parseAndPinFromSafetensors_ok {removeRaises pinRaises : Option PyError}
    {content : List UInt8} {b : ReadBuffer δ}
    (h : parseAndPinFromSafetensors libs removeRaises pinRaises content = .ok b) :
    parseContent libs content = .ok (b.buffer, b.metas) ∧ removeRaises = none := by
  obtain ⟨⟨buffer, metas⟩, hparse, h⟩ := bind_eq_ok.mp h
  cases removeRaises with
  | some error => cases h
  | none =>
      refine ⟨?_, rfl⟩
      simp only at h
      split at h
      · next hempty =>
          split at h
          · obtain rfl := Except.ok.inj h
            rw [hparse, List.isEmpty_iff.mp hempty]
          · cases h
      · cases pinRaises with
        | some error => cases h
        | none =>
            obtain rfl := Except.ok.inj h
            exact hparse

/-- A file without tensors has no bytes behind its header. -/
theorem parseContent_nil {content buffer : List UInt8}
    (h : parseContent libs content = .ok (buffer, [])) : buffer = [] := by
  obtain ⟨-, rfl, items, -, hchained, hmetas⟩ := parseContent_ok h
  cases hitems : inOrder items with
  | nil =>
      rw [hitems] at hchained
      have hlength : (0 : Rat) = (dataSection content).length := hchained
      exact List.length_eq_zero_iff.mp (by exact_mod_cast hlength.symm)
  | cons item rest =>
      rw [hitems] at hmetas
      cases hmetas

/-- Where nothing else fails, a file that is parsed is returned. -/
theorem exists_parseAndPinFromSafetensors {content buffer : List UInt8}
    {metas : List (ReadMeta δ)} (h : parseContent libs content = .ok (buffer, metas)) :
    ∃ b, parseAndPinFromSafetensors libs none none content = .ok b := by
  rw [parseAndPinFromSafetensors, h]
  simp only [bind, Except.bind]
  split
  · next hempty =>
      rw [List.isEmpty_iff.mp hempty] at h
      rw [if_pos (List.length_eq_zero_iff.mpr (parseContent_nil h))]
      exact ⟨_, rfl⟩
  · exact ⟨_, rfl⟩

theorem Regular.acceptsOnlyValid {content : List UInt8} (h : Regular libs content) :
    AcceptsOnlyValid libs content := by
  intro removeRaises pinRaises b hb
  obtain ⟨-, hbuffer, items, hitems, hchained, hmetas⟩ :=
    parseContent_ok (parseAndPinFromSafetensors_ok hb).1
  have hexact : ∀ item ∈ inOrder items, ∀ param, readEntry libs item = .ok param →
      span item.2 = some (param.alignedSize : Rat) := by
    intro item hitem param hentry
    obtain ⟨x, hx⟩ := hchained.offsets item hitem
    obtain ⟨start, stop, hvalue, -, -⟩ := offsets_eq_some.mp hx
    exact h.exact items hitems item ((List.mem_insertionSort _).mp hitem) start stop _ hvalue
      ((readEntry_ok hentry).2 start stop hvalue)
  have hnonneg := hchained.span_nonneg (List.pairwise_insertionSort _ items)
    (h.upright items hitems)
  have hoccupies : Occupies (dataSection content).length 0 (inOrder items) b.metas :=
    Chained.occupies (by simpa using hchained) hmetas hexact hnonneg
  refine ⟨h.header_inside, hbuffer, ⟨items, hitems, hbuffer ▸ hoccupies⟩, ?_⟩
  intro param hparam
  obtain ⟨item, hitem, hentry⟩ := exists_of_forall₂ (List.Forall₂.flip hmetas) hparam
  have hspan := h.spans items hitems item ((List.mem_insertionSort _).mp hitem) _
    (readEntry_ok hentry).1
  rw [hexact item hitem param hentry] at hspan
  exact_mod_cast Option.some.inj hspan

theorem AcceptsOnlyValid.regular {content : List UInt8} (h : AcceptsOnlyValid libs content)
    (haccepted : Accepted libs content) : Regular libs content := by
  obtain ⟨⟨buffer, metas⟩, hparse⟩ := parseContent_accepts.mpr haccepted
  obtain ⟨b, hb⟩ := exists_parseAndPinFromSafetensors hparse
  have hvalid := h none none b hb
  obtain ⟨-, -, items, hitems, -, hmetas⟩ :=
    parseContent_ok (parseAndPinFromSafetensors_ok hb).1
  have hmeta : ∀ item ∈ items, ∃ param ∈ b.metas, readEntry libs item = .ok param ∧
      span item.2 = some (param.alignedSize : Rat) ∧ 0 ≤ param.alignedSize := by
    obtain ⟨items', hitems', hoccupies⟩ := hvalid.tiles
    obtain rfl := Except.ok.inj (hitems.symm.trans hitems')
    exact fun item hitem => hoccupies.meta_of hmetas item ((List.mem_insertionSort _).mpr hitem)
  refine ⟨hvalid.header_inside, ?_, ?_, ?_⟩
  · intro items' hitems' item hitem size hsize
    obtain rfl := Except.ok.inj (hitems.symm.trans hitems')
    obtain ⟨param, hparam, hentry, hspan, -⟩ := hmeta item hitem
    obtain rfl := Except.ok.inj ((readEntry_ok hentry).1.symm.trans hsize)
    rw [hspan, hvalid.spans param hparam]
  · intro items' hitems' item hitem start stop size hvalue hsize
    obtain rfl := Except.ok.inj (hitems.symm.trans hitems')
    obtain ⟨param, -, hentry, hspan, -⟩ := hmeta item hitem
    obtain rfl := Except.ok.inj (((readEntry_ok hentry).2 start stop hvalue).symm.trans hsize)
    exact hspan
  · intro items' hitems' item hlast size hsize
    obtain rfl := Except.ok.inj (hitems.symm.trans hitems')
    have hitem := (List.mem_insertionSort _).mp (List.mem_of_getLast? hlast)
    obtain ⟨param, -, -, hspan, hnonneg⟩ := hmeta item hitem
    obtain rfl := Option.some.inj (hspan.symm.trans hsize)
    exact_mod_cast hnonneg

/-- A file that has the form the reader asks for is read as it should be exactly when it
is regular; any other raises. -/
theorem acceptsOnlyValid_iff (libs : Libraries δ) (content : List UInt8) :
    AcceptsOnlyValid libs content ↔ (Accepted libs content → Regular libs content) := by
  constructor
  · exact AcceptsOnlyValid.regular
  · intro h removeRaises pinRaises b hb
    have haccepted : Accepted libs content :=
      parseContent_accepts.mp ⟨_, (parseAndPinFromSafetensors_ok hb).1⟩
    exact (h haccepted).acceptsOnlyValid removeRaises pinRaises b hb

/-! ## Files that are not -/

/-- `_TYPES` of safetensors, for the types that a checkpoint can hold. -/
def getdtype : Json → Except PyError DType
  | .str "F64" => .ok .float64
  | .str "F32" => .ok .float32
  | .str "F16" => .ok .float16
  | .str "BF16" => .ok .bfloat16
  | .str "C64" => .ok .complex64
  | .str "I64" => .ok .int64
  | .str "I32" => .ok .int32
  | .str "I16" => .ok .int16
  | .str "I8" => .ok .int8
  | .str "U64" => .ok .uint64
  | .str "U32" => .ok .uint32
  | .str "U16" => .ok .uint16
  | .str "U8" => .ok .uint8
  | .str "BOOL" => .ok .bool
  | .str "F8_E4M3" => .ok .float8_e4m3fn
  | .str "F8_E5M2" => .ok .float8_e5m2
  | .str "F8_E8M0" => .ok .float8_e8m0fnu
  | .str key => .error (.keyError key)
  | _ => .error (.typeError "unhashable type")

/-- The sizes in a list of integers. -/
def torchSize : Json → Except PyError (List Int)
  | .arr items => items.mapM fun
      | .num (.int n) => .ok n
      | _ => .error (.typeError "torch.Size() takes an iterable of 'int'")
  | _ => .error (.typeError "torch.Size() takes an iterable of 'int'")

/-- A float without a fraction, taken for an integer. -/
def validInt : Quantity → Except PyError Int
  | .finite q =>
      if q.den = 1 then .ok q.num
      else .error (.valueError
        "Input should be a valid integer, got a number with a fractional part")
  | _ => .error (.valueError "Input should be a finite number")

/-- The libraries, on what a header holds. -/
def libraries : Libraries DType where
  loads bytes := (Json.loads bytes).mapError PyError.valueError
  str value := match value.number? with
    | some (.int n) => toString n
    | _ => ""
  getdtype := getdtype
  itemsize := DType.itemsize
  torchSize := torchSize
  validInt := validInt
  validInt_ok {q n} h := by
    unfold validInt at h
    split at h
    · next q =>
        split at h
        · next hden =>
            obtain rfl := Except.ok.inj h
            rw [Rat.coe_int_num_of_den_eq_one hden]
        · cases h
    · cases h

/-- An entry of a header. -/
def entryText (name dtype shape offsets : String) : String :=
  "\"" ++ name ++ "\":\x7b\"dtype\":\"" ++ dtype ++ "\",\"shape\":[" ++ shape ++
    "],\"data_offsets\":[" ++ offsets ++ "]\x7d"

/-- A file with this length field, header and data. -/
def storedBytes (headerLength : Nat) (header : String) (data : List UInt8) : List UInt8 :=
  (List.range flagSize).map (fun i => UInt8.ofNat (headerLength / 256 ^ i)) ++
    header.toList.map (fun c => UInt8.ofNat c.toNat) ++ data

/-- The header of a file with these entries. -/
def headerText (entries : List String) : String := "\x7b" ++ ",".intercalate entries ++ "\x7d"

/-- The first of two tensors needs sixteen bytes and has eight. -/
def overlapping : List UInt8 :=
  let header := headerText [entryText "a" "F32" "4" "0,8", entryText "b" "F32" "2" "8,16"]
  storedBytes header.length header (List.replicate 16 0)

/-- The last of two extents ends before it starts. -/
def inverted : List UInt8 :=
  let header := headerText [entryText "a" "U8" "16" "0,16", entryText "b" "U8" "-8" "16,8"]
  storedBytes header.length header (List.replicate 8 0)

/-- The length field points behind the end of the file. -/
def overlong : List UInt8 := storedBytes (2 ^ 32) (headerText [entryText "a" "U8" "0" "0,0"]) []

/-- The buffer that is returned for each of them says something else than the file. -/
theorem irregular_accepted :
    ¬ AcceptsOnlyValid libraries overlapping ∧ ¬ AcceptsOnlyValid libraries inverted ∧
      ¬ AcceptsOnlyValid libraries overlong := by
  refine ⟨fun h => ?_, fun h => ?_, fun h => ?_⟩
  · have hread : parseAndPinFromSafetensors libraries none none overlapping = .ok
        ⟨List.replicate 16 0, 16, [⟨"a", .float32, [4], 8⟩, ⟨"b", .float32, [2], 8⟩], true⟩ := by
      decide +kernel
    have hspan := (h none none _ hread).spans ⟨"a", .float32, [4], 8⟩ List.mem_cons_self
    revert hspan
    decide
  · have hread : parseAndPinFromSafetensors libraries none none inverted = .ok
        ⟨List.replicate 8 0, 8, [⟨"a", .uint8, [16], 16⟩, ⟨"b", .uint8, [-8], -8⟩], true⟩ := by
      decide +kernel
    obtain ⟨items, -, hoccupies⟩ := (h none none _ hread).tiles
    have hnonneg := hoccupies.nonneg ⟨"b", .uint8, [-8], -8⟩ (by decide)
    revert hnonneg
    decide
  · have hread : parseAndPinFromSafetensors libraries none none overlong = .ok
        ⟨[], 0, [⟨"a", .uint8, [0], 0⟩], true⟩ := by
      decide +kernel
    have hinside := (h none none _ hread).header_inside
    revert hinside
    decide +kernel

end CheckpointEngine.Registry
