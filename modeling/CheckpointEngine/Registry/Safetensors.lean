/-
  `Registry.Safetensors`: the bytes of a safetensors file that is pinned in place,
  `_parse_and_pin_from_safetensors` in `checkpoint_engine/pin_memory.py`.

  The header is whatever JSON the file holds.  A file starts with the length of its
  header in eight bytes; the bytes behind the header are the tensors.
-/
import CheckpointEngine.Foundation.Grouping
import CheckpointEngine.Foundation.JsonText
import CheckpointEngine.Registry.Weights
import Mathlib.Data.List.Infix

set_option autoImplicit false

namespace CheckpointEngine.Registry

open CheckpointEngine.Foundation

/-- What the reader calls: `json.loads`, torch, safetensors and pydantic, for element
types `δ`. -/
structure Libraries (δ : Type) where
  /-- `json.loads` -/
  loads : List UInt8 → Except PyError Json
  /-- `str` -/
  str : Json → String
  /-- `safetensors.torch._getdtype` -/
  getdtype : Json → Except PyError δ
  /-- `dtype.itemsize` -/
  itemsize : δ → Nat
  /-- the sizes in `torch.Size(value)` -/
  torchSize : Json → Except PyError (List Int)
  /-- a float given for an `int` field of a model -/
  validInt : Quantity → Except PyError Int
  /-- such a float is the integer that it is taken for -/
  validInt_ok {q : Quantity} {n : Int} (h : validInt q = .ok n) : q = .finite n

/-- A `ParameterMeta` as the reader builds it: nothing keeps its sizes from being
negative. -/
structure ReadMeta (δ : Type) where
  name : String
  dtype : δ
  shape : List Int
  alignedSize : Int
  deriving DecidableEq, Repr

/-- A `MemoryBuffer` with the bytes it holds. -/
structure ReadBuffer (δ : Type) where
  buffer : List UInt8
  size : Nat
  metas : List (ReadMeta δ)
  manuallyPinned : Bool
  deriving DecidableEq, Repr

/-! ## The header -/

/-- `int.from_bytes(…, byteorder="little", signed=False)`. -/
def fromBytes : List UInt8 → Nat
  | [] => 0
  | b :: rest => b.toNat + 256 * fromBytes rest

/-- `flag_size`. -/
def flagSize : Nat := 8

/-- `start_pos`. -/
def startPos (content : List UInt8) : Nat := fromBytes (content.take flagSize) + flagSize

/-- The bytes behind the header. -/
def dataSection (content : List UInt8) : List UInt8 := content.drop (startPos content)

/-- The items of `header` without `__metadata__`.  Only a dictionary has items. -/
def headerItems : Json → Except PyError (List (String × Json))
  | .obj entries => .ok (entries.filter fun item => item.1 ≠ "__metadata__")
  | .arr items =>
      if items.any fun item => item.eq (.str "__metadata__") then
        .error (.typeError "'str' object cannot be interpreted as an integer")
      else .error (.attributeError "'list' object has no attribute 'items'")
  | .str text =>
      if "__metadata__".toList <:+: text.toList then
        .error (.attributeError "'str' object has no attribute 'pop'")
      else .error (.attributeError "'str' object has no attribute 'items'")
  | _ => .error (.typeError "argument is not iterable")

/-- `value[key]`. -/
def getItem (key : String) : Json → Except PyError Json
  | .obj entries =>
      match entries.lookup key with
      | some value => .ok value
      | none => .error (.keyError key)
  | .arr _ => .error (.typeError "list indices must be integers or slices, not str")
  | .str _ => .error (.typeError "string indices must be integers, not 'str'")
  | _ => .error (.typeError "object is not subscriptable")

/-- `sorted(header.items(), key=lambda x: x[1]["data_offsets"])`. -/
def sortItems (items : List (String × Json)) : Except PyError (List (String × Json)) := do
  let keyed ← items.mapM fun item => do return (← getItem "data_offsets" item.2, item)
  match sortedBy (fun x y => x.1.lt y.1) keyed with
  | some sorted => return sorted.map Prod.snd
  | none => .error (.typeError "'<' not supported between instances")

/-- Two values, from what iterates to two. -/
def pairOf : List Json → Except PyError (Json × Json)
  | [start, stop] => .ok (start, stop)
  | _ :: _ :: _ :: _ => .error (.valueError "too many values to unpack (expected 2)")
  | items => .error (.valueError
      s!"not enough values to unpack (expected 2, got {items.length})")

/-- `start, end = value`. -/
def unpackPair : Json → Except PyError (Json × Json)
  | .arr items => pairOf items
  | .str text => pairOf (text.toList.map fun c => .str (String.singleton c))
  | .obj entries => pairOf (entries.map fun item => .str item.1)
  | _ => .error (.typeError "cannot unpack non-iterable object")

section Reader

variable {δ : Type} (libs : Libraries δ)

/-- `end - start`, given for the field `aligned_size`. -/
def extentSize (start stop : Json) : Except PyError Int :=
  match stop.number?, start.number? with
  | some stop, some start =>
      match stop.sub start with
      | some (.int size) => .ok size
      | some (.float size) => libs.validInt size
      | none => .error (.overflowError "int too large to convert to float")
  | _, _ => .error (.typeError "unsupported operand type(s) for -")

/-- The `ParameterMeta` of an entry. -/
def readMeta (name : String) (entry start stop : Json) : Except PyError (ReadMeta δ) := do
  let dtype ← libs.getdtype (← getItem "dtype" entry)
  let shape ← libs.torchSize (← getItem "shape" entry)
  return ⟨name, dtype, shape, ← extentSize libs start stop⟩

/-- The loop over the sorted items, from `offset` on: where it ends, and the metas. -/
def readItems : Json → List (String × Json) → Except PyError (Json × List (ReadMeta δ))
  | offset, [] => .ok (offset, [])
  | offset, (name, entry) :: rest => do
      let (start, stop) ← unpackPair (← getItem "data_offsets" entry)
      if offset.eq start then
        let param ← readMeta libs name entry start stop
        let (last, metas) ← readItems stop rest
        return (last, param :: metas)
      else
        .error (.assertionError
          s!"offset {libs.str offset} should be equal to start {libs.str start}")

/-- The items of the header in the file: a slice ends where the file does. -/
def readHeader (content : List UInt8) : Except PyError (List (String × Json)) := do
  headerItems (← libs.loads ((content.take (startPos content)).drop flagSize))

/-- What is parsed before the file is removed: `buffer` and `metas`. -/
def parseContent (content : List UInt8) :
    Except PyError (List UInt8 × List (ReadMeta δ)) :=
  if content.length ≤ flagSize then
    .error (.assertionError
      s!"tensor nbytes {content.length} should be greater than flag_size {flagSize}")
  else do
    let items ← readHeader libs content
    let (offset, metas) ← readItems libs (.num (.int 0)) (← sortItems items)
    let buffer := content.drop (startPos content)
    if offset.eq (.num (.int buffer.length)) then
      return (buffer, metas)
    else
      .error (.assertionError
        s!"offset {libs.str offset} should be equal to buffer.nbytes {buffer.length}")

/-- `_parse_and_pin_from_safetensors`; `os.remove` and `_pin` raise what is given. -/
def parseAndPinFromSafetensors (removeRaises pinRaises : Option PyError)
    (content : List UInt8) : Except PyError (ReadBuffer δ) := do
  let (buffer, metas) ← parseContent libs content
  match removeRaises with
  | some error => .error error
  | none =>
      if metas.isEmpty then
        if buffer.length = 0 then
          return ⟨buffer, buffer.length, [], false⟩
        else
          .error (.assertionError s!"buffer nbytes {buffer.length} should be 0")
      else
        match pinRaises with
        | some error => .error error
        | none => return ⟨buffer, buffer.length, metas, true⟩

end Reader

/-! ## Offsets as numbers -/

/-- The `data_offsets` of an entry. -/
def offsets (entry : Json) : Option (Rat × Rat) :=
  match getItem "data_offsets" entry with
  | .ok (.arr [start, stop]) => do return (← start.value?, ← stop.value?)
  | _ => none

/-- What the items are sorted by. -/
def sortKey (item : String × Json) : Lex (Rat × Rat) := toLex ((offsets item.2).getD (0, 0))

/-- The items by `data_offsets`. -/
def inOrder (items : List (String × Json)) : List (String × Json) :=
  items.insertionSort fun x y => sortKey x ≤ sortKey y

theorem offsets_eq_some {entry : Json} {x : Rat × Rat} :
    offsets entry = some x ↔ ∃ start stop, getItem "data_offsets" entry = .ok (.arr [start, stop]) ∧
      start.value? = some x.1 ∧ stop.value? = some x.2 := by
  constructor
  · intro h
    unfold offsets at h
    split at h
    · next start stop hitem =>
        obtain ⟨a, ha, h⟩ := Option.bind_eq_some_iff.mp h
        obtain ⟨b, hb, h⟩ := Option.bind_eq_some_iff.mp h
        obtain rfl := Option.some.inj h
        exact ⟨start, stop, hitem, ha, hb⟩
    · cases h
  · intro ⟨start, stop, hitem, ha, hb⟩
    rw [offsets, hitem]
    simp [ha, hb]

/-- Unpacking gives a number first only where it unpacks a list. -/
theorem unpackPair_ok {value start stop : Json} (h : unpackPair value = .ok (start, stop))
    {a : Rat} (ha : start.value? = some a) : value = .arr [start, stop] := by
  have hpair : ∀ items, pairOf items = .ok (start, stop) → items = [start, stop] := by
    intro items hitems
    unfold pairOf at hitems
    split at hitems
    · obtain ⟨rfl, rfl⟩ := Prod.mk.inj (Except.ok.inj hitems)
      rfl
    · cases hitems
    · cases hitems
  have hstr : ∀ text, start ≠ .str text := by
    intro text hstart
    rw [hstart] at ha
    cases ha
  cases value with
  | arr items => rw [hpair items h]
  | str text =>
      have hmem : start ∈ text.toList.map fun c => Json.str (String.singleton c) := by
        rw [hpair _ h]
        exact List.mem_cons_self
      obtain ⟨c, _, hc⟩ := List.mem_map.mp hmem
      exact absurd hc.symm (hstr _)
  | obj entries =>
      have hmem : start ∈ entries.map fun item => Json.str item.1 := by
        rw [hpair _ h]
        exact List.mem_cons_self
      obtain ⟨item, _, hitem⟩ := List.mem_map.mp hmem
      exact absurd hitem.symm (hstr _)
  | null | bool | num => cases h

/-! ## Sorting the items -/

/-- The `data_offsets` that an item is sorted by. -/
def offsetsValue (item : String × Json) : Json :=
  match getItem "data_offsets" item.2 with
  | .ok value => value
  | .error _ => .null

theorem sortItems_perm {items sorted : List (String × Json)} (h : sortItems items = .ok sorted) :
    sorted.Perm items := by
  obtain ⟨keyed, hkeyed, h⟩ := bind_eq_ok.mp h
  have hmap : keyed = items.map fun item => (offsetsValue item, item) := by
    refine mapM_eq_map hkeyed fun item pair hpair => ?_
    obtain ⟨value, hvalue, hpair⟩ := bind_eq_ok.mp hpair
    obtain rfl := Except.ok.inj hpair
    rw [offsetsValue, hvalue]
  split at h
  · next keyed' hsorted =>
      obtain rfl := Except.ok.inj h
      have hitems : keyed.map Prod.snd = items := by
        rw [hmap, List.map_map]
        exact List.map_id items
      rw [← hitems]
      exact (sortedBy_perm hsorted).map Prod.snd
  · cases h

/-- Items whose offsets are numbers are sorted by them. -/
theorem sortItems_eq {items : List (String × Json)}
    (h : ∀ item ∈ items, ∃ x, offsets item.2 = some x) : sortItems items = .ok (inOrder items) := by
  have hkeyed : (items.mapM fun item => do return (← getItem "data_offsets" item.2, item)) =
      .ok (items.map fun item => (offsetsValue item, item)) := by
    apply mapM_eq_ok
    intro item hitem
    obtain ⟨x, hx⟩ := h item hitem
    obtain ⟨start, stop, hvalue, -⟩ := offsets_eq_some.mp hx
    rw [offsetsValue, hvalue]
    rfl
  have hlt : ∀ x ∈ items.map (fun item => (offsetsValue item, item)),
      ∀ y ∈ items.map (fun item => (offsetsValue item, item)),
      x.1.lt y.1 = some (decide (sortKey x.2 < sortKey y.2)) := by
    intro x hx y hy
    obtain ⟨item, hitem, rfl⟩ := List.mem_map.mp hx
    obtain ⟨item', hitem', rfl⟩ := List.mem_map.mp hy
    obtain ⟨p, hp⟩ := h item hitem
    obtain ⟨q, hq⟩ := h item' hitem'
    obtain ⟨start, stop, hvalue, hstart, hstop⟩ := offsets_eq_some.mp hp
    obtain ⟨start', stop', hvalue', hstart', hstop'⟩ := offsets_eq_some.mp hq
    simp only [offsetsValue, hvalue, hvalue', sortKey, hp, hq, Option.getD_some]
    exact Json.lt_pair hstart hstop hstart' hstop'
  have hitems : (items.map fun item => (offsetsValue item, item)).map Prod.snd = items := by
    rw [List.map_map]
    exact List.map_id items
  have hinsertion := List.map_insertionSort (fun x y => sortKey x.2 ≤ sortKey y.2)
    (fun x y => sortKey x ≤ sortKey y) Prod.snd
    (items.map fun item => (offsetsValue item, item)) fun _ _ _ _ => Iff.rfl
  rw [hitems] at hinsertion
  rw [sortItems, hkeyed]
  simp only [bind, Except.bind, sortedBy_eq hlt]
  exact congrArg Except.ok hinsertion

/-! ## What is accepted -/

section Acceptance

variable {δ : Type} {libs : Libraries δ}

variable (libs) in
/-- The meta of an item, whatever comes before it. -/
def readEntry (item : String × Json) : Except PyError (ReadMeta δ) := do
  let (start, stop) ← unpackPair (← getItem "data_offsets" item.2)
  readMeta libs item.1 item.2 start stop

variable (libs) in
/-- Each extent starts where the one before it ends, from `offset` up to `last`, and each
item describes a tensor. -/
def Chained (last : Rat) : Rat → List (String × Json) → Prop
  | offset, [] => offset = last
  | offset, item :: rest => ∃ stop, offsets item.2 = some (offset, stop) ∧
      (∃ param, readEntry libs item = .ok param) ∧ Chained last stop rest

variable (libs) in
/-- The bytes of the tensor that an entry describes. -/
def tensorSize (entry : Json) : Except PyError Int := do
  let dtype ← libs.getdtype (← getItem "dtype" entry)
  let shape ← libs.torchSize (← getItem "shape" entry)
  return libs.itemsize dtype * shape.prod

theorem readMeta_ok {name : String} {entry start stop : Json} {param : ReadMeta δ}
    (h : readMeta libs name entry start stop = .ok param) :
    param.name = name ∧ extentSize libs start stop = .ok param.alignedSize ∧
      tensorSize libs entry = .ok (libs.itemsize param.dtype * param.shape.prod) := by
  obtain ⟨dtypeValue, hdtypeValue, h⟩ := bind_eq_ok.mp h
  obtain ⟨dtype, hdtype, h⟩ := bind_eq_ok.mp h
  obtain ⟨shapeValue, hshapeValue, h⟩ := bind_eq_ok.mp h
  obtain ⟨shape, hshape, h⟩ := bind_eq_ok.mp h
  obtain ⟨size, hsize, h⟩ := bind_eq_ok.mp h
  obtain rfl := Except.ok.inj h
  refine ⟨rfl, hsize, ?_⟩
  simp only [tensorSize, hdtypeValue, hdtype, hshapeValue, hshape, bind, Except.bind]
  rfl

/-- Only a number can be subtracted from. -/
theorem extentSize_ok {start stop : Json} {size : Int}
    (h : extentSize libs start stop = .ok size) : ∃ b, stop.value? = some b := by
  unfold extentSize at h
  split at h
  · next y x hstop hstart =>
      suffices hfinite : ∃ b, y.quantity = .finite b by
        obtain ⟨b, hb⟩ := hfinite
        exact ⟨b, Json.value?_eq_some.mpr ⟨y, hstop, hb⟩⟩
      cases y with
      | int n => exact ⟨n, rfl⟩
      | float q =>
          rw [Number.sub] at h
          · split at h
            · next n hsub =>
                split at hsub <;> cases hsub
            · next d hsub =>
                split at hsub
                · next q' x' hq hx =>
                    obtain rfl := Option.some.inj hq
                    obtain rfl := Number.float.inj (Option.some.inj hsub)
                    have hd := libs.validInt_ok h
                    cases q with
                    | finite b => exact ⟨b, rfl⟩
                    | infinite negative =>
                        cases x' with
                        | infinite other =>
                            simp only [Quantity.sub] at hd
                            split at hd <;> cases hd
                        | finite | nan => cases hd
                    | nan => cases x' <;> cases hd
                · cases hsub
            · cases h
          · simp
  · cases h

theorem readItems_ok {offset last : Json} {a : Rat} {items : List (String × Json)}
    {metas : List (ReadMeta δ)} (ha : offset.value? = some a)
    (h : readItems libs offset items = .ok (last, metas)) :
    ∃ z, last.value? = some z ∧ Chained libs z a items ∧
      List.Forall₂ (fun item param => readEntry libs item = .ok param) items metas := by
  induction items generalizing offset a metas with
  | nil =>
      obtain ⟨rfl, rfl⟩ := Prod.mk.inj (Except.ok.inj h)
      exact ⟨a, ha, rfl, .nil⟩
  | cons item rest ih =>
      obtain ⟨value, hvalue, h⟩ := bind_eq_ok.mp h
      obtain ⟨⟨start, stop⟩, hpair, h⟩ := bind_eq_ok.mp h
      simp only at h
      split at h
      · next heq =>
          have hstart := (Json.eq_iff_value ha).mp heq
          obtain ⟨param, hparam, h⟩ := bind_eq_ok.mp h
          obtain ⟨⟨last', metas'⟩, hrest, h⟩ := bind_eq_ok.mp h
          obtain ⟨rfl, rfl⟩ := Prod.mk.inj (Except.ok.inj h)
          have hentry : readEntry libs item = .ok param :=
            bind_eq_ok.mpr ⟨value, hvalue, bind_eq_ok.mpr ⟨(start, stop), hpair, hparam⟩⟩
          obtain ⟨b, hstop⟩ := extentSize_ok (readMeta_ok hparam).2.1
          have hoffsets : offsets item.2 = some (a, b) := offsets_eq_some.mpr
            ⟨start, stop, by rw [hvalue, unpackPair_ok hpair hstart], hstart, hstop⟩
          obtain ⟨z, hz, hchained, hmetas⟩ := ih hstop hrest
          exact ⟨z, hz, ⟨b, hoffsets, ⟨param, hentry⟩, hchained⟩, .cons hentry hmetas⟩
      · cases h

/-- Items that follow each other are read. -/
theorem exists_readItems {offset : Json} {a z : Rat} {items : List (String × Json)}
    (ha : offset.value? = some a) (h : Chained libs z a items) :
    ∃ last metas, last.value? = some z ∧ readItems libs offset items = .ok (last, metas) := by
  induction items generalizing offset a with
  | nil =>
      obtain rfl : a = z := h
      exact ⟨offset, [], ha, rfl⟩
  | cons item rest ih =>
      obtain ⟨b, hoffsets, ⟨param, hentry⟩, hchained⟩ := h
      obtain ⟨start, stop, hvalue, hstart, hstop⟩ := offsets_eq_some.mp hoffsets
      obtain ⟨last, metas, hlast, hrest⟩ := ih hstop hchained
      have hparam : readMeta libs item.1 item.2 start stop = .ok param := by
        simpa [readEntry, hvalue, unpackPair, pairOf, bind, Except.bind] using hentry
      have heq : offset.eq start = true := (Json.eq_iff_value ha).mpr hstart
      refine ⟨last, param :: metas, hlast, ?_⟩
      simp only [readItems, hvalue, unpackPair, pairOf, heq, hparam, hrest, bind, Except.bind,
        if_true]
      rfl

theorem Chained.offsets {a z : Rat} {items : List (String × Json)} (h : Chained libs z a items) :
    ∀ item ∈ items, ∃ x, Registry.offsets item.2 = some x := by
  induction items generalizing a with
  | nil => simp
  | cons first rest ih =>
      obtain ⟨b, hoffsets, -, hchained⟩ := h
      intro item hitem
      rcases List.mem_cons.mp hitem with rfl | hmem
      · exact ⟨_, hoffsets⟩
      · exact ih hchained item hmem

variable (libs) in
/-- What the reader asks of a file: a header in JSON, whose items in the order of their
offsets describe tensors, follow each other and end with the file. -/
def Accepted (content : List UInt8) : Prop :=
  flagSize < content.length ∧ ∃ items, readHeader libs content = .ok items ∧
    Chained libs (dataSection content).length 0 (inOrder items)

/-- A file that is read has the form asked for, and its metas are those of its items. -/
theorem parseContent_ok {content buffer : List UInt8} {metas : List (ReadMeta δ)}
    (h : parseContent libs content = .ok (buffer, metas)) :
    flagSize < content.length ∧ buffer = dataSection content ∧
      ∃ items, readHeader libs content = .ok items ∧
        Chained libs (dataSection content).length 0 (inOrder items) ∧
        List.Forall₂ (fun item param => readEntry libs item = .ok param) (inOrder items)
          metas := by
  unfold parseContent at h
  split at h
  · cases h
  · next hlong =>
      obtain ⟨items, hitems, h⟩ := bind_eq_ok.mp h
      obtain ⟨sorted, hsorted, h⟩ := bind_eq_ok.mp h
      obtain ⟨⟨last, metas'⟩, hread, h⟩ := bind_eq_ok.mp h
      simp only at h
      split at h
      · next heq =>
          obtain ⟨rfl, rfl⟩ := Prod.mk.inj (Except.ok.inj h)
          have hzero : (Json.num (.int 0)).value? = some 0 := rfl
          obtain ⟨z, hz, hchained, hmetas⟩ := readItems_ok hzero hread
          have hlast := (Json.eq_iff_value hz).mp heq
          obtain rfl : ((dataSection content).length : Rat) = z := by
            simpa [Json.value?, Json.number?, Number.value?, Number.quantity, dataSection]
              using hlast
          have hperm := sortItems_perm hsorted
          have hoffsets : ∀ item ∈ items, ∃ x, offsets item.2 = some x :=
            fun item hitem => hchained.offsets item (hperm.mem_iff.mpr hitem)
          obtain rfl : inOrder items = sorted :=
            Except.ok.inj ((sortItems_eq hoffsets).symm.trans hsorted)
          exact ⟨Nat.not_le.mp hlong, rfl, items, hitems, hchained, hmetas⟩
      · cases h

/-- The reader accepts the files of this form and no others. -/
theorem parseContent_accepts {content : List UInt8} :
    (∃ read, parseContent libs content = .ok read) ↔ Accepted libs content := by
  constructor
  · intro ⟨⟨buffer, metas⟩, h⟩
    obtain ⟨hlong, -, items, hitems, hchained, -⟩ := parseContent_ok h
    exact ⟨hlong, items, hitems, hchained⟩
  · intro ⟨hlong, items, hitems, hchained⟩
    have hoffsets : ∀ item ∈ items, ∃ x, offsets item.2 = some x := fun item hitem =>
      hchained.offsets item ((List.perm_insertionSort _ items).mem_iff.mpr hitem)
    have hzero : (Json.num (.int 0)).value? = some 0 := rfl
    obtain ⟨last, metas, hlast, hread⟩ := exists_readItems hzero hchained
    have heq : last.eq (.num (.int (dataSection content).length)) = true := by
      apply (Json.eq_iff_value hlast).mpr
      simp [Json.value?, Json.number?, Number.value?, Number.quantity]
    refine ⟨(dataSection content, metas), ?_⟩
    rw [parseContent, if_neg (Nat.not_le.mpr hlong), hitems]
    simp only [bind, Except.bind, sortItems_eq hoffsets, hread]
    exact if_pos heq

end Acceptance

/-! ## Headers with integer offsets -/

section Stored

variable {libs : Libraries DType}

/-- A meta of the model of registration; its `aligned_size` may be negative. -/
def ReadMeta.ofParam (param : ParameterMeta Int) : ReadMeta DType :=
  ⟨param.name, param.dtype, param.shape.map Int.ofNat, param.alignedSize⟩

variable (libs) in
/-- An item of a header that says what a header entry says. -/
structure Encodes (item : String × Json) (entry : HeaderEntry Int) : Prop where
  name : item.1 = entry.name
  offsets : getItem "data_offsets" item.2 =
    .ok (.arr [.num (.int entry.start), .num (.int entry.stop)])
  dtype : ∃ value, getItem "dtype" item.2 = .ok value ∧ libs.getdtype value = .ok entry.dtype
  shape : ∃ value, getItem "shape" item.2 = .ok value ∧
    libs.torchSize value = .ok (entry.shape.map Int.ofNat)

variable (libs) in
/-- The bytes of a safetensors file. -/
structure Stores (content : List UInt8) (file : SafetensorsFile Int) : Prop where
  long : flagSize < content.length
  header : ∃ items, readHeader libs content = .ok items ∧
    List.Forall₂ (Encodes libs) items file.header
  nbytes : file.nbytes = (dataSection content).length

theorem Encodes.offsets_eq {item : String × Json} {entry : HeaderEntry Int}
    (h : Encodes libs item entry) :
    Registry.offsets item.2 = some ((entry.start : Rat), (entry.stop : Rat)) :=
  offsets_eq_some.mpr ⟨_, _, h.offsets, rfl, rfl⟩

theorem Encodes.sortKey_le {item item' : String × Json} {entry entry' : HeaderEntry Int}
    (h : Encodes libs item entry) (h' : Encodes libs item' entry') :
    sortKey item ≤ sortKey item' ↔
      entry.start < entry'.start ∨ entry.start = entry'.start ∧ entry.stop ≤ entry'.stop := by
  rw [sortKey, sortKey, h.offsets_eq, h'.offsets_eq]
  simp only [Option.getD_some, Prod.Lex.toLex_le_toLex, Int.cast_lt, Int.cast_inj, Int.cast_le]

/-- Items and entries are sorted alike. -/
theorem forall₂_inOrder {items : List (String × Json)} {entries : List (HeaderEntry Int)}
    (h : List.Forall₂ (Encodes libs) items entries) :
    List.Forall₂ (Encodes libs) (inOrder items) (sortHeader entries) := by
  have hinsert : ∀ {item entry sorted sorted'}, Encodes libs item entry →
      List.Forall₂ (Encodes libs) sorted sorted' →
        List.Forall₂ (Encodes libs)
          (sorted.orderedInsert (fun x y => sortKey x ≤ sortKey y) item)
          (sorted'.orderedInsert (fun x y : HeaderEntry Int =>
            x.start < y.start ∨ x.start = y.start ∧ x.stop ≤ y.stop) entry) := by
    intro item entry sorted sorted' hitem hsorted
    induction hsorted with
    | nil => exact .cons hitem .nil
    | cons hfirst hrest ih =>
        rw [List.orderedInsert, List.orderedInsert]
        simp only [hitem.sortKey_le hfirst]
        split
        · exact .cons hitem (.cons hfirst hrest)
        · exact .cons hfirst ih
  induction h with
  | nil => exact .nil
  | cons hfirst _ ih => exact hinsert hfirst ih

theorem Encodes.readMeta_eq {item : String × Json} {entry : HeaderEntry Int}
    (h : Encodes libs item entry) :
    readMeta libs item.1 item.2 (.num (.int entry.start)) (.num (.int entry.stop)) =
      .ok (.ofParam entry.param) := by
  obtain ⟨dtypeValue, hdtypeValue, hdtype⟩ := h.dtype
  obtain ⟨shapeValue, hshapeValue, hshape⟩ := h.shape
  have hsize : extentSize libs (.num (.int entry.start)) (.num (.int entry.stop)) =
      .ok entry.size := by
    rw [← add_sub_cancel_left entry.start entry.size, entry.start_add_size]
    rfl
  simp only [readMeta, hdtypeValue, hdtype, hshapeValue, hshape, hsize, h.name, bind, Except.bind]
  rfl

/-- Both loops go the same way. -/
theorem readItems_encodes {items : List (String × Json)} {entries : List (HeaderEntry Int)}
    (h : List.Forall₂ (Encodes libs) items entries) (offset : Int) :
    match parseHeader offset entries with
    | .ok (last, metas) => readItems libs (.num (.int offset)) items =
        .ok (.num (.int last), metas.map ReadMeta.ofParam)
    | .error _ => ∃ error, readItems libs (.num (.int offset)) items = .error error := by
  induction h generalizing offset with
  | nil => rfl
  | @cons item entry items entries hfirst _ ih =>
      have heq : (Json.num (.int offset)).eq (.num (.int entry.start)) =
          decide (offset = entry.start) := by
        rw [Bool.eq_iff_iff, Json.eq_iff_value (a := offset) rfl, decide_eq_true_eq]
        simp [Json.value?, Json.number?, Number.value?, Number.quantity, eq_comm]
      simp only [parseHeader, readItems, hfirst.offsets, unpackPair, pairOf, bind, Except.bind,
        heq, decide_eq_true_eq]
      by_cases hstart : offset = entry.start
      · have hrest := ih entry.stop
        simp only [if_pos hstart, hfirst.readMeta_eq]
        cases hparse : parseHeader entry.stop entries with
        | error error =>
            rw [hparse] at hrest
            obtain ⟨error', herror⟩ := hrest
            exact ⟨error', by rw [herror]⟩
        | ok parsed =>
            rw [hparse] at hrest
            simp only at hrest ⊢
            rw [hrest]
            rfl
      · simp only [if_neg hstart]
        exact ⟨_, rfl⟩

/-- Two readers that return the same, up to where the bytes lie, or both raise. -/
def Agrees : Except PyError (ReadBuffer DType) → Except PyError (MemoryBuffer Int) → Prop
  | .ok read, .ok b => read.buffer.length = b.buffer.nbytes ∧ read.size = b.size ∧
      read.metas = b.metas.map ReadMeta.ofParam ∧ read.manuallyPinned = b.manuallyPinned
  | .error _, .error _ => True
  | _, _ => False

/-- Where the offsets are integers, the header entries are all that matters of a file. -/
theorem Stores.agrees {content : List UInt8} {file : SafetensorsFile Int}
    (h : Stores libs content file) {host : Host Int} {filePath : String}
    (hfile : host.safetensors filePath = .ok file) (ptr : Nat) :
    Agrees (parseAndPinFromSafetensors libs none (host.pinRaises filePath) content)
      (parseAndPin host ptr filePath) := by
  obtain ⟨items, hitems, hencodes⟩ := h.header
  have hsorted : sortItems items = .ok (inOrder items) := by
    apply sortItems_eq
    intro item hitem
    obtain ⟨entry, _, hentry⟩ := exists_of_forall₂ hencodes hitem
    exact ⟨_, hentry.offsets_eq⟩
  have hlast : ∀ last : Int, (Json.num (.int last)).eq
      (.num (.int (content.drop (startPos content)).length)) = decide (last = file.nbytes) := by
    intro last
    rw [Bool.eq_iff_iff, Json.eq_iff_value (a := last) rfl, decide_eq_true_eq, h.nbytes]
    simp only [Json.value?, Json.number?, Number.value?, Number.quantity, dataSection,
      Option.bind_some, Int.cast_natCast, Option.some.injEq, eq_comm]
    exact_mod_cast Iff.rfl
  have hread := readItems_encodes (forall₂_inOrder hencodes) 0
  rw [parseAndPinFromSafetensors, parseContent, if_neg (Nat.not_le.mpr h.long), hitems,
    parseAndPin, hfile]
  simp only [bind, Except.bind, hsorted]
  cases hparse : parseHeader 0 (sortHeader file.header) with
  | error error =>
      rw [hparse] at hread
      obtain ⟨error', herror⟩ := hread
      rw [herror]
      trivial
  | ok parsed =>
      obtain ⟨last, metas⟩ := parsed
      rw [hparse] at hread
      simp only at hread ⊢
      rw [hread]
      simp only [hlast, decide_eq_true_eq, ne_eq, ite_not]
      by_cases hend : last = file.nbytes
      · have hlength : (content.drop (startPos content)).length = file.nbytes := h.nbytes.symm
        simp only [if_pos hend]
        cases metas with
        | nil =>
            obtain rfl : last = 0 := parseHeader_nil hparse
            have hempty : (content.drop (startPos content)).length = 0 := by omega
            simp only [pure, Except.pure, List.map_nil, List.isEmpty_nil, if_true, if_pos hempty]
            exact ⟨hlength, hlength, rfl, rfl⟩
        | cons first rest =>
            simp only [pure, Except.pure, List.map_cons, List.isEmpty_cons, Bool.false_eq_true,
              if_false]
            cases host.pinRaises filePath with
            | some error => trivial
            | none => exact ⟨hlength, hlength, rfl, rfl⟩
      · simp only [if_neg hend]
        trivial

end Stored

end CheckpointEngine.Registry
