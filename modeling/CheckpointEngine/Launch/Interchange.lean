/-
  `Launch.Interchange`: metas as JSON, by the models of `checkpoint_engine/data_types.py`.

  A file that `update_weights` saves in `examples/update.py` and the endpoints of
  `/v1/metas` in `checkpoint_engine/api.py` all go through `dict[int, MemoryBufferMetaList]`.
  Nothing keeps the numbers that are read from being negative.
-/
import CheckpointEngine.Foundation.Schema
import CheckpointEngine.Registry.Safetensors

set_option autoImplicit false

namespace CheckpointEngine.Launch

open CheckpointEngine.Foundation CheckpointEngine.Foundation.Schema
open CheckpointEngine.Registry (ReadMeta)

/-! ## The records as they are read -/

/-- `MemoryBufferMetas`. -/
structure ReadBufferMetas where
  metas : List (ReadMeta DType)
  ptr : Int
  size : Int
  deriving DecidableEq

/-- `MemoryBufferMetaList`. -/
structure ReadMetaList where
  p2pStoreAddr : Option String
  memoryBufferMetasList : List ReadBufferMetas
  rdmaDevice : String
  deriving DecidableEq

/-- `dict[int, MemoryBufferMetaList]`, in insertion order. -/
abbrev ReadMetas := List (Int × ReadMetaList)

/-! ## Validation -/

/-- What `getattr(torch, name)` can be. -/
inductive Attribute where
  | dtype (dtype : DType)
  /-- another object, with its text and that of its type -/
  | other (text typeText : String)
  deriving DecidableEq

/-- `str(n)` of an `int`. -/
def intText (n : Int) : String := String.ofList (Json.writeInt n)

/-- `value.split(".")[1]`, for a text with a dot. -/
def attributeName (text : String) : String :=
  String.ofList ((text.toList.splitOn '.')[1]?.getD [])

/-- What validation calls in torch and pydantic. -/
structure Validators where
  /-- `getattr(torch, name)`, or `none` for an `AttributeError` -/
  torchAttr : String → Option Attribute
  /-- a dtype is the attribute that its text names -/
  torchAttr_text : ∀ dtype : DType, torchAttr (attributeName dtype.text) = some (.dtype dtype)
  /-- `torch.Size(value)` -/
  torchSize : List Json → Except PyError (List Int)
  torchSize_ints : ∀ sizes : List Int,
    torchSize (sizes.map fun n => .num (.int n)) = .ok sizes
  /-- an `int` field -/
  validInt : Json → Except PyError Int
  validInt_int : ∀ n, validInt (.num (.int n)) = .ok n
  /-- an `int` key -/
  validKey : String → Except PyError Int
  validKey_text : ∀ n : Int, validKey (intText n) = .ok n
  /-- `str(value)` and `str(type(value))` -/
  str : Json → String
  typeStr : Json → String
  /-- pydantic's JSON -/
  toJson : Json → List UInt8
  fromJson : List UInt8 → Except PyError Json
  fromJson_toJson : ∀ value : Json, value.Plain → fromJson (toJson value) = .ok value

namespace Validators

variable (v : Validators)

/-- `_dt_validate`. -/
def dtValidate : Json → Except PyError DType
  | .str value =>
      if "torch.".toList.isPrefixOf value.toList then
        match v.torchAttr (attributeName value) with
        | none => .error (.valueError s!"unknown dtype: {value}")
        | some (.dtype dtype) => .ok dtype
        | some (.other text typeText) =>
            .error (.typeError s!"dtype {text} should be torch.dtype, got {typeText}")
      else .error (.valueError s!"dtype {value} should start with torch.")
  | value =>
      let text := v.str value
      let typeText := v.typeStr value
      .error (.typeError s!"dtype {text} should be torch.dtype, got {typeText}")

/-- `_size_validate`. -/
def sizeValidate : Json → Except PyError (List Int)
  | .arr items => v.torchSize items
  | value =>
      let text := v.str value
      let typeText := v.typeStr value
      .error (.typeError s!"size {text} should be torch.Size, got {typeText}")

/-! ## The models -/

/-- `_TorchDtype`. -/
def torchDtype : Schema PyError DType where
  dump dtype := .str dtype.text
  validate := v.dtValidate

/-- `_TorchSize`. -/
def torchSizes : Schema PyError (List Int) where
  dump sizes := .arr (sizes.map fun n => .num (.int n))
  validate := v.sizeValidate

/-- A value that is of another type than the field. -/
def notA (what : String) (_ : Json) : PyError := .valueError s!"Input should be a valid {what}"

/-- A field that is not there. -/
def required (key : String) : PyError := .valueError s!"{key}: Field required"

def strField : Schema PyError String := Schema.str (notA "string")

def intField : Schema PyError Int := Schema.int v.validInt

/-- `ParameterMeta`. -/
def parameterMeta : Schema PyError (ReadMeta DType) where
  dump x := .obj
    [("name", strField.dump x.name), ("dtype", v.torchDtype.dump x.dtype),
      ("shape", v.torchSizes.dump x.shape), ("aligned_size", v.intField.dump x.alignedSize)]
  validate
    | .obj entries => do
        let name ← field required "name" strField entries
        let dtype ← field required "dtype" v.torchDtype entries
        let shape ← field required "shape" v.torchSizes entries
        let alignedSize ← field required "aligned_size" v.intField entries
        return ⟨name, dtype, shape, alignedSize⟩
    | json => .error (notA "dictionary or instance of ParameterMeta" json)

/-- `MemoryBufferMetas`. -/
def memoryBufferMetas : Schema PyError ReadBufferMetas where
  dump x := .obj
    [("metas", (list (notA "list") v.parameterMeta).dump x.metas),
      ("ptr", v.intField.dump x.ptr), ("size", v.intField.dump x.size)]
  validate
    | .obj entries => do
        let metas ← field required "metas" (list (notA "list") v.parameterMeta) entries
        let ptr ← field required "ptr" v.intField entries
        let size ← field required "size" v.intField entries
        return ⟨metas, ptr, size⟩
    | json => .error (notA "dictionary or instance of MemoryBufferMetas" json)

/-- `MemoryBufferMetaList`. -/
def memoryBufferMetaList : Schema PyError ReadMetaList where
  dump x := .obj
    [("p2p_store_addr", (nullable strField).dump x.p2pStoreAddr),
      ("memory_buffer_metas_list",
        (list (notA "list") v.memoryBufferMetas).dump x.memoryBufferMetasList),
      ("rdma_device", strField.dump x.rdmaDevice)]
  validate
    | .obj entries => do
        let p2pStoreAddr ← field required "p2p_store_addr" (nullable strField) entries
        let memoryBufferMetasList ← field required "memory_buffer_metas_list"
          (list (notA "list") v.memoryBufferMetas) entries
        let rdmaDevice ← field required "rdma_device" strField entries
        return ⟨p2pStoreAddr, memoryBufferMetasList, rdmaDevice⟩
    | json => .error (notA "dictionary or instance of MemoryBufferMetaList" json)

/-- `_METAS_ADAPTER`. -/
def metasAdapter : Schema PyError ReadMetas :=
  dict (notA "dictionary") intText v.validKey v.memoryBufferMetaList

/-- `_METAS_ADAPTER.dump_json`. -/
def dumpJson (metas : ReadMetas) : List UInt8 := v.toJson (v.metasAdapter.dump metas)

/-- `_METAS_ADAPTER.validate_json`. -/
def validateJson (data : List UInt8) : Except PyError ReadMetas := do
  v.metasAdapter.validate (← v.fromJson data)

/-! ## What is kept -/

/-- The text of a dtype stands for it. -/
theorem lawful_torchDtype : v.torchDtype.Lawful := by
  intro dtype
  refine ⟨.str _, ?_⟩
  have htorch : "torch.".toList.isPrefixOf dtype.text.toList = true := by
    cases dtype <;> decide
  change v.dtValidate (.str dtype.text) = _
  rw [dtValidate, if_pos htorch, v.torchAttr_text]

theorem lawful_torchSizes : v.torchSizes.Lawful := by
  intro sizes
  refine ⟨.arr fun item hitem => ?_, v.torchSize_ints sizes⟩
  obtain ⟨n, -, rfl⟩ := List.mem_map.mp hitem
  exact .int n

theorem lawful_strField : strField.Lawful := lawful_str _

theorem lawful_intField : v.intField.Lawful := lawful_int v.validInt_int

theorem lawful_parameterMeta : v.parameterMeta.Lawful := by
  intro x
  have hname := lawful_strField x.name
  have hdtype := v.lawful_torchDtype x.dtype
  have hshape := v.lawful_torchSizes x.shape
  have hsize := v.lawful_intField x.alignedSize
  constructor
  · refine .obj (by simp) ?_
    exact List.forall_mem_cons.mpr ⟨hname.plain, List.forall_mem_cons.mpr ⟨hdtype.plain,
      List.forall_mem_cons.mpr ⟨hshape.plain, List.forall_mem_singleton.mpr hsize.plain⟩⟩⟩
  · simp only [parameterMeta]
    rw [field_eq hname rfl, field_eq hdtype rfl, field_eq hshape rfl, field_eq hsize rfl]
    rfl

theorem lawful_memoryBufferMetas : v.memoryBufferMetas.Lawful := by
  intro x
  have hmetas := lawful_list (notA "list") v.lawful_parameterMeta x.metas
  have hptr := v.lawful_intField x.ptr
  have hsize := v.lawful_intField x.size
  constructor
  · refine .obj (by simp) ?_
    exact List.forall_mem_cons.mpr ⟨hmetas.plain, List.forall_mem_cons.mpr ⟨hptr.plain,
      List.forall_mem_singleton.mpr hsize.plain⟩⟩
  · simp only [memoryBufferMetas]
    rw [field_eq hmetas rfl, field_eq hptr rfl, field_eq hsize rfl]
    rfl

theorem lawful_memoryBufferMetaList : v.memoryBufferMetaList.Lawful := by
  intro x
  have haddr := lawful_nullable lawful_strField (fun _ => Json.noConfusion) x.p2pStoreAddr
  have hlist := lawful_list (notA "list") v.lawful_memoryBufferMetas x.memoryBufferMetasList
  have hdevice := lawful_strField x.rdmaDevice
  constructor
  · refine .obj (by simp) ?_
    exact List.forall_mem_cons.mpr ⟨haddr.plain, List.forall_mem_cons.mpr ⟨hlist.plain,
      List.forall_mem_singleton.mpr hdevice.plain⟩⟩
  · simp only [memoryBufferMetaList]
    rw [field_eq haddr rfl, field_eq hlist rfl, field_eq hdevice rfl]
    rfl

/-- A dictionary of metas is read back from its JSON. -/
theorem validateJson_dumpJson {metas : ReadMetas} (h : (metas.map Prod.fst).Nodup) :
    v.validateJson (v.dumpJson metas) = .ok metas := by
  have hkeeps : v.metasAdapter.Keeps metas :=
    keeps_dict v.lawful_memoryBufferMetaList v.validKey_text h
  rw [validateJson, dumpJson, v.fromJson_toJson _ hkeeps.plain]
  exact hkeeps.validate_dump

theorem validateJson_nodup {data : List UInt8} {metas : ReadMetas}
    (h : v.validateJson data = .ok metas) : (metas.map Prod.fst).Nodup := by
  obtain ⟨json, -, hvalid⟩ := bind_eq_ok.mp h
  exact dict_validate_nodup hvalid

end Validators

/-! ## The metas of a server -/

/-- A `ParameterMeta` of a server. -/
def readParameter (x : ParameterMeta) : ReadMeta DType :=
  ⟨x.name, x.dtype, x.shape.map Int.ofNat, x.alignedSize⟩

def readBuffer (x : MemoryBufferMetas) : ReadBufferMetas :=
  ⟨x.metas.map readParameter, x.ptr, x.size⟩

def readOwner (x : MemoryBufferMetaList) : ReadMetaList :=
  ⟨x.p2pStoreAddr, x.memoryBufferMetasList.map readBuffer, x.rdmaDevice⟩

/-- `_current_global_parameter_metas`, as it is sent. -/
def readMetas (metas : GlobalMetas) : ReadMetas :=
  metas.map fun owner => (owner.1, readOwner owner.2)

theorem readParameter_injective : Function.Injective readParameter := by
  intro x y h
  obtain ⟨hname, hdtype, hshape, hsize⟩ := ReadMeta.mk.inj h
  have hsizes := (List.map_injective_iff.mpr fun _ _ => Int.ofNat.inj) hshape
  obtain ⟨name, dtype, shape, alignedSize⟩ := x
  obtain ⟨name', dtype', shape', alignedSize'⟩ := y
  obtain rfl : name = name' := hname
  obtain rfl : dtype = dtype' := hdtype
  obtain rfl : shape = shape' := hsizes
  obtain rfl : alignedSize = alignedSize' := Int.ofNat.inj hsize
  rfl

theorem readBuffer_injective : Function.Injective readBuffer := by
  intro x y h
  obtain ⟨hmetas, hptr, hsize⟩ := ReadBufferMetas.mk.inj h
  have hparams := (List.map_injective_iff.mpr readParameter_injective) hmetas
  obtain ⟨metas, ptr, size⟩ := x
  obtain ⟨metas', ptr', size'⟩ := y
  obtain rfl : metas = metas' := hparams
  obtain rfl : ptr = ptr' := Int.ofNat.inj hptr
  obtain rfl : size = size' := Int.ofNat.inj hsize
  rfl

theorem readOwner_injective : Function.Injective readOwner := by
  intro x y h
  obtain ⟨haddr, hlist, hdevice⟩ := ReadMetaList.mk.inj h
  have hbuffers := (List.map_injective_iff.mpr readBuffer_injective) hlist
  obtain ⟨addr, buffers, device⟩ := x
  obtain ⟨addr', buffers', device'⟩ := y
  obtain rfl : addr = addr' := haddr
  obtain rfl : buffers = buffers' := hbuffers
  obtain rfl : device = device' := hdevice
  rfl

/-- Different metas are sent differently. -/
theorem readMetas_injective : Function.Injective readMetas := by
  refine List.map_injective_iff.mpr fun x y h => ?_
  obtain ⟨hrank, howner⟩ := Prod.mk.inj h
  exact Prod.ext (Int.ofNat.inj hrank) (readOwner_injective howner)

theorem readMetas_keys (metas : GlobalMetas) :
    (readMetas metas).map Prod.fst = (metas.map Prod.fst).map fun rank : Nat => (rank : Int) := by
  rw [readMetas, List.map_map, List.map_map]
  rfl

theorem readMetas_nodup {metas : GlobalMetas} (h : (metas.map Prod.fst).Nodup) :
    ((readMetas metas).map Prod.fst).Nodup := by
  rw [readMetas_keys]
  exact h.map fun _ _ => Int.ofNat.inj

/-- **Interchange.**  Metas that one server sends, as a file or by HTTP, are the metas that
the other one reads, and no other metas are sent as the same bytes; and whatever has once been
accepted can be handed on: it is accepted again, as the same. -/
theorem metas_interchange (v : Validators) :
    (∀ metas : GlobalMetas, (metas.map Prod.fst).Nodup →
      v.validateJson (v.dumpJson (readMetas metas)) = .ok (readMetas metas) ∧
        ∀ others : GlobalMetas, (others.map Prod.fst).Nodup →
          v.dumpJson (readMetas others) = v.dumpJson (readMetas metas) → others = metas) ∧
      ∀ data metas, v.validateJson data = .ok metas →
        v.validateJson (v.dumpJson metas) = .ok metas := by
  refine ⟨fun metas hkeys => ?_, fun data metas hread => ?_⟩
  · have hmetas := v.validateJson_dumpJson (readMetas_nodup hkeys)
    refine ⟨hmetas, fun others hothers hsame => readMetas_injective ?_⟩
    have hread := v.validateJson_dumpJson (readMetas_nodup hothers)
    rw [hsame] at hread
    exact Except.ok.inj (hread.symm.trans hmetas)
  · exact v.validateJson_dumpJson (v.validateJson_nodup hread)

/-- The attributes of `torch` that are dtypes. -/
def dtypeNamed (name : String) : Option Attribute :=
  ([.bool, .uint8, .int8, .float8_e4m3fn, .float8_e5m2, .float8_e8m0fnu, .int16, .uint16,
    .float16, .bfloat16, .int32, .uint32, .float32, .int64, .uint64, .float64, .complex64,
    .complex128].find? fun dtype : DType => attributeName dtype.text = name).map .dtype

/-- The value of an integer that is written in digits. -/
def intOf (text : String) : Except PyError Int :=
  match Json.scanNumber text.toList with
  | some (.int n, []) => .ok n
  | _ => .error (.valueError "Input should be a valid integer")

/-- Validators that take integers for integers only. -/
def strictValidators : Validators where
  torchAttr := dtypeNamed
  torchAttr_text dtype := by cases dtype <;> decide
  torchSize items := items.mapM fun
    | .num (.int n) => .ok n
    | _ => .error (.typeError "torch.Size() takes an iterable of 'int'")
  torchSize_ints sizes := by
    refine mapM_eq_ok_iff.mpr (List.forall₂_map_left_iff.mpr ?_)
    exact List.forall₂_same.mpr fun _ _ => rfl
  validInt
    | .num (.int n) => .ok n
    | _ => .error (.valueError "Input should be a valid integer")
  validInt_int _ := rfl
  validKey := intOf
  validKey_text n := by
    have hscan := @Json.scanNumber_writeInt [] (by simp [Json.Ends]) n
    rw [List.append_nil] at hscan
    rw [intOf, intText, String.toList_ofList, hscan]
  str _ := ""
  typeStr _ := ""
  toJson := Json.dumps
  fromJson data := (Json.loads data).mapError .valueError
  fromJson_toJson value h := by rw [Json.loads_dumps h]; rfl

/-- A rank with an address, and one without buffers and without an address. -/
def sentMetas : GlobalMetas :=
  [(0, ⟨some "host0:1", [⟨[⟨"a", .float8_e4m3fn, [7, 2], 256⟩], 1024, 256⟩], "mlx5_0"⟩),
    (3, ⟨none, [], ""⟩)]

theorem metas_interchange_sentMetas :
    strictValidators.validateJson (strictValidators.dumpJson (readMetas sentMetas)) =
      .ok (readMetas sentMetas) :=
  ((metas_interchange strictValidators).1 sentMetas (by decide)).1

end CheckpointEngine.Launch
