/-
  `Registry.ArrayFiles`: the arrays in a `.npy` file, `_fast_np_load` in
  `checkpoint_engine/pin_memory.py`.

  Such a file is any number of arrays one behind the other, each with a header as numpy
  writes it, and a pickled list at its side says which tensors they are.  The reader
  accepts nothing else, and takes the bytes of every array as they are.
-/
import CheckpointEngine.Registry.FileOrder
import CheckpointEngine.Registry.Safetensors

set_option autoImplicit false

namespace CheckpointEngine.Registry.TensorParallel

open CheckpointEngine.Foundation

/-! ## Tensors by their bytes -/

/-- A tensor, with its bytes in row-major order. -/
@[ext]
structure ByteTensor where
  dtype : DType
  shape : TorchSize
  bytes : List UInt8
  length_bytes : bytes.length = dtype.itemsize * numel shape
  deriving DecidableEq

/-- An entry of the pickled list, a `FileMeta`. -/
structure FileMeta where
  key : String
  dtype : DType
  shape : TorchSize
  /-- `meta["type"] == torch.Tensor` -/
  isTensor : Bool
  tpConcatDim : Int
  /-- `isinstance(meta["shape"], torch.Size)` -/
  shapeIsSize : Bool
  /-- `str(meta)` -/
  text : String
  deriving DecidableEq

/-- What the reader calls of numpy and torch, for numpy's dtypes `δ`. -/
structure ArrayLibraries (δ : Type) where
  /-- `dtype.itemsize` -/
  itemsize : δ → Nat
  /-- the shape, `fortran_order` and the dtype that the text of a header gives -/
  readText : List UInt8 → Except LoadError (TorchSize × Bool × δ)
  /-- what `read_magic` raises of these bytes -/
  magicRaises : List UInt8 → LoadError
  /-- what `np.memmap` raises of a dtype -/
  mappable : δ → Except LoadError Unit
  /-- the dtype of `torch.from_numpy` -/
  fromNumpy : δ → Except LoadError DType
  itemsize_fromNumpy {d : δ} {dtype : DType} (h : fromNumpy d = .ok dtype) :
    dtype.itemsize = itemsize d
  /-- what `view(dtype=…)` raises -/
  viewDTypeRaises : ByteTensor → DType → LoadError
  /-- what `view(*shape)` raises -/
  viewShapeRaises : ByteTensor → TorchSize → LoadError

/-- The files of a machine, opened for reading. -/
structure ArrayDisk where
  /-- `pickle.load` -/
  pickled : String → Except LoadError (List FileMeta)
  contents : String → Except LoadError (List UInt8)

section Reading

variable {δ : Type} (lib : ArrayLibraries δ)

/-! ## Headers -/

/-- `_read_bytes` of numpy: the bytes and those behind them. -/
def readBytes (what : String) (size : Nat) (rest : List UInt8) :
    Except LoadError (List UInt8 × List UInt8) :=
  if size ≤ rest.length then .ok (rest.take size, rest.drop size)
  else
    .error (.raised (.valueError
      s!"EOF: reading {what}, expected {size} bytes got {rest.length}"))

/-- `MAGIC_PREFIX`. -/
def magicBytes : List UInt8 := [147, 78, 85, 77, 80, 89]

/-- `read_magic`: the two numbers of the version, and the bytes behind. -/
def readMagic (rest : List UInt8) : Except LoadError ((UInt8 × UInt8) × List UInt8) := do
  let (magic, rest) ← readBytes "magic string" 8 rest
  if magic.take 6 = magicBytes then return ((magic.getD 6 0, magic.getD 7 0), rest)
  else .error (lib.magicRaises magic)

/-- The `tensor_meta` of an array. -/
structure NpyHeader (δ : Type) where
  shape : TorchSize
  isFortran : Bool
  dtype : δ
  headerLength : Nat
  headerLength_pos : 0 < headerLength

/-- `read_array_header_1_0`, and with four bytes for the length `read_array_header_2_0`. -/
def readArrayHeader (lengthSize : Nat) (rest : List UInt8) : Except LoadError (NpyHeader δ) := do
  let (hlength, rest) ← readBytes "array header length" lengthSize rest
  let (text, _) ← readBytes "array header" (fromBytes hlength) rest
  let (shape, isFortran, dtype) ← lib.readText text
  return ⟨shape, isFortran, dtype, 8 + lengthSize + fromBytes hlength, by omega⟩

/-- `parse_npy_header` where `rest` is left to be read. -/
def parseNpyHeader (fn : String) (rest : List UInt8) : Except LoadError (NpyHeader δ) := do
  let ((major, minor), rest) ← readMagic lib rest
  if major = 1 ∧ minor = 0 then readArrayHeader lib 2 rest
  else if major = 2 ∧ minor = 0 then readArrayHeader lib 4 rest
  else
    .error (.raised (.valueError
      s!"unknown version {major}.{minor} when parsing npy header from {fn}"))

/-! ## Arrays -/

/-- A `np.memmap`. -/
structure MappedArray where
  dtype : δ
  shape : TorchSize
  bytes : List UInt8
  length_bytes : bytes.length = lib.itemsize dtype * numel shape

/-- `tensor.nbytes`. -/
def NpyHeader.nbytes (header : NpyHeader δ) : Nat := lib.itemsize header.dtype * numel header.shape

/-- `np.memmap(fn, dtype=…, mode="c", offset=offset, shape=…)`: in C order, whatever the
header says. -/
def memmap (data : List UInt8) (offset : Nat) (header : NpyHeader δ) :
    Except LoadError (MappedArray lib) := do
  lib.mappable header.dtype
  if h : offset + header.nbytes lib ≤ data.length then
    return ⟨header.dtype, header.shape, (data.drop offset).take (header.nbytes lib), by
      rw [List.length_take, List.length_drop]
      exact Nat.min_eq_left (by omega)⟩
  else
    .error (.raised (.valueError "mmap length is greater than file size"))

/-- The `while` loop over the arrays of a file. -/
def readTensors (fn : String) (data : List UInt8) (offset : Nat) :
    Except LoadError (List (MappedArray lib)) :=
  if offset < data.length then do
    let tensorMeta ← parseNpyHeader lib fn (data.drop offset)
    let tensor ← memmap lib data (offset + tensorMeta.headerLength) tensorMeta
    have := tensorMeta.headerLength_pos
    let tensors ← readTensors fn data (offset + (tensorMeta.headerLength + tensorMeta.nbytes lib))
    return tensor :: tensors
  else .ok []
termination_by data.length - offset

/-! ## Views -/

/-- The strides of a contiguous array; a dimension without extent counts as one. -/
def strides : TorchSize → List Nat
  | [] => []
  | _ :: rest => (rest.map (max 1)).prod :: strides rest

/-- Elements of `old` bytes, in a contiguous tensor of this shape, can be taken as elements
of `new` bytes: rows begin with an element. -/
def Scales (old new : Nat) (shape : TorchSize) : Prop :=
  (∃ last ∈ shape.getLast?, new ∣ last * old) ∧
    ∀ stride ∈ (strides shape).dropLast, new ∣ stride * old

instance (old new : Nat) (shape : TorchSize) : Decidable (Scales old new shape) :=
  inferInstanceAs (Decidable (_ ∧ _))

/-- The shape with the last dimension in elements of `new` bytes. -/
def scaledShape (old new : Nat) (shape : TorchSize) : TorchSize :=
  shape.dropLast ++ shape.getLast?.toList.map fun last => last * old / new

theorem numel_scaledShape {old new : Nat} {shape : TorchSize} (h : Scales old new shape) :
    new * numel (scaledShape old new shape) = old * numel shape := by
  obtain ⟨⟨last, hlast, hdvd⟩, -⟩ := h
  have hsplit := List.dropLast_append_getLast? last hlast
  have hscaled : scaledShape old new shape = shape.dropLast ++ [last * old / new] := by
    rw [scaledShape, Option.mem_def.mp hlast]
    rfl
  calc new * numel (scaledShape old new shape)
      = numel shape.dropLast * (new * (last * old / new)) := by
        rw [hscaled, numel, List.prod_append, List.prod_singleton, Nat.mul_left_comm]
        rfl
    _ = old * (numel shape.dropLast * last) := by
        rw [Nat.mul_div_cancel' hdvd, Nat.mul_comm last, Nat.mul_left_comm]
    _ = old * numel shape := by
        rw [← congrArg numel hsplit, numel, numel, List.prod_append, List.prod_singleton]

/-- `tensor.view(dtype=dtype)`. -/
def viewDType (tensor : ByteTensor) (dtype : DType) : Except LoadError ByteTensor :=
  if hsame : dtype.itemsize = tensor.dtype.itemsize then
    .ok ⟨dtype, tensor.shape, tensor.bytes, by rw [hsame, tensor.length_bytes]⟩
  else if hscales : Scales tensor.dtype.itemsize dtype.itemsize tensor.shape then
    .ok ⟨dtype, scaledShape tensor.dtype.itemsize dtype.itemsize tensor.shape, tensor.bytes, by
      rw [numel_scaledShape hscales, tensor.length_bytes]⟩
  else .error (lib.viewDTypeRaises tensor dtype)

/-- `tensor.view(*shape)`, which takes at least one size. -/
def viewShape (tensor : ByteTensor) (shape : TorchSize) : Except LoadError ByteTensor :=
  if h : shape ≠ [] ∧ numel shape = numel tensor.shape then
    .ok ⟨tensor.dtype, shape, tensor.bytes, by rw [h.2, tensor.length_bytes]⟩
  else .error (lib.viewShapeRaises tensor shape)

/-- `torch.from_numpy`. -/
def fromNumpy (tensor : MappedArray lib) : Except LoadError ByteTensor :=
  match h : lib.fromNumpy tensor.dtype with
  | .ok dtype => .ok ⟨dtype, tensor.shape, tensor.bytes, by
      rw [lib.itemsize_fromNumpy h, tensor.length_bytes]⟩
  | .error error => .error error

/-- One iteration of the loop over the metas and the arrays. -/
def viewTensor (fileMeta : FileMeta) (tensor : MappedArray lib) :
    Except LoadError (Shard ByteTensor) := do
  if fileMeta.isTensor then
    let tensor ← fromNumpy lib tensor
    let tensor ← viewDType lib tensor fileMeta.dtype
    let tensor ← viewShape lib tensor fileMeta.shape
    return ⟨fileMeta.key, tensor, fileMeta.tpConcatDim, fileMeta.shapeIsSize, fileMeta.text⟩
  else
    -- an array has no view with a dtype of torch
    .error (.raised (.typeError s!"Cannot interpret '{fileMeta.dtype.text}' as a data type"))

/-- `_fast_np_load`. -/
def fastNpLoad (disk : ArrayDisk) (fn : String) : Except LoadError (List (Shard ByteTensor)) := do
  let metaLst ← disk.pickled (fn ++ ".meta")
  let data ← disk.contents fn
  let tensors ← readTensors lib fn data 0
  if metaLst.length = tensors.length then
    let loaded ← (metaLst.zip tensors).mapM fun (fileMeta, tensor) => viewTensor lib fileMeta tensor
    return loaded.foldl (fun ret shard => setItem Shard.name shard ret) []
  else
    .error (.raised (.assertionError ""))

end Reading

/-! ## Headers as they are written -/

/-- `size` bytes of a number, the lowest first. -/
def toBytes : Nat → Nat → List UInt8
  | 0, _ => []
  | size + 1, n => UInt8.ofNat n :: toBytes size (n / 256)

theorem length_toBytes (size n : Nat) : (toBytes size n).length = size := by
  induction size generalizing n with
  | zero => rfl
  | succ size ih => rw [toBytes, List.length_cons, ih]

theorem fromBytes_toBytes {size n : Nat} (h : n < 256 ^ size) : fromBytes (toBytes size n) = n := by
  induction size generalizing n with
  | zero => exact (Nat.lt_one_iff.mp h).symm
  | succ size ih =>
      have hrest : n / 256 < 256 ^ size :=
        Nat.div_lt_of_lt_mul (by rwa [Nat.mul_comm, ← Nat.pow_succ])
      rw [toBytes, fromBytes, ih hrest, UInt8.toNat_ofNat']
      exact Nat.mod_add_div n 256

theorem fromBytes_lt (bytes : List UInt8) : fromBytes bytes < 256 ^ bytes.length := by
  induction bytes with
  | nil => exact Nat.one_pos
  | cons b rest ih =>
      have hb : b.toNat < 256 := b.toNat_lt
      rw [fromBytes, List.length_cons, Nat.pow_succ]
      omega

theorem toBytes_fromBytes (bytes : List UInt8) :
    toBytes bytes.length (fromBytes bytes) = bytes := by
  induction bytes with
  | nil => rfl
  | cons b rest ih =>
      have hb : b.toNat < 256 := b.toNat_lt
      have hdiv : (b.toNat + 256 * fromBytes rest) / 256 = fromBytes rest := by omega
      have hbyte : UInt8.ofNat (b.toNat + 256 * fromBytes rest) = b := by
        refine UInt8.toNat_inj.mp ?_
        rw [UInt8.toNat_ofNat']
        omega
      rw [List.length_cons, fromBytes, toBytes, hdiv, ih, hbyte]

/-- The versions of the format that are read. -/
inductive NpyVersion where
  | one
  | two
  deriving DecidableEq

/-- The bytes in which the length of the text stands. -/
def NpyVersion.lengthSize : NpyVersion → Nat
  | .one => 2
  | .two => 4

def NpyVersion.major : NpyVersion → UInt8
  | .one => 1
  | .two => 2

/-- A header with this text. -/
def headerBytes (version : NpyVersion) (text : List UInt8) : List UInt8 :=
  magicBytes ++ [version.major, 0] ++ toBytes version.lengthSize text.length ++ text

theorem length_headerBytes (version : NpyVersion) (text : List UInt8) :
    (headerBytes version text).length = 8 + version.lengthSize + text.length := by
  simp only [headerBytes, List.length_append, length_toBytes]
  rfl

section Headers

variable {δ : Type} {lib : ArrayLibraries δ} {rest : List UInt8}

theorem readBytes_eq_ok_iff {what : String} {size : Nat} {bytes tail : List UInt8} :
    readBytes what size rest = .ok (bytes, tail) ↔ rest = bytes ++ tail ∧ bytes.length = size := by
  unfold readBytes
  split
  · rename_i hle
    rw [Except.ok.injEq, Prod.mk.injEq]
    constructor
    · rintro ⟨rfl, rfl⟩
      exact ⟨(List.take_append_drop size rest).symm, List.length_take_of_le hle⟩
    · rintro ⟨rfl, rfl⟩
      exact ⟨List.take_left, List.drop_left⟩
  · rename_i hshort
    refine iff_of_false (fun h => by cases h) fun h => hshort ?_
    rw [h.1, List.length_append, h.2]
    exact Nat.le_add_right _ _

/-- Eight bytes that begin with the magic ones. -/
theorem eq_magic_iff {magic : List UInt8} (hlength : magic.length = 8) {major minor : UInt8} :
    (magic.take 6 = magicBytes ∧ magic.getD 6 0 = major ∧ magic.getD 7 0 = minor) ↔
      magic = magicBytes ++ [major, minor] := by
  constructor
  · rintro ⟨htake, rfl, rfl⟩
    refine List.ext_getElem (by rw [hlength]; rfl) fun i hi hi' => ?_
    have hcut : magic = magic.take 6 ++ magic.drop 6 := (List.take_append_drop 6 magic).symm
    have htail : magic.drop 6 = [magic.getD 6 0, magic.getD 7 0] := by
      refine List.ext_getElem (by simp [hlength]) fun j hj hj' => ?_
      simp only [List.length_drop, hlength] at hj
      have hcases : j = 0 ∨ j = 1 := by omega
      rcases hcases with rfl | rfl <;> simp [List.getD_eq_getElem?_getD, hlength]
    rw [List.getElem_of_eq (hcut.trans (by rw [htake, htail]))]
  · rintro rfl
    exact ⟨rfl, rfl, rfl⟩

theorem readMagic_eq_ok_iff {major minor : UInt8} {tail : List UInt8} :
    readMagic lib rest = .ok ((major, minor), tail) ↔
      rest = magicBytes ++ [major, minor] ++ tail := by
  rw [readMagic, bind_eq_ok]
  constructor
  · rintro ⟨⟨magic, tail'⟩, hread, h⟩
    obtain ⟨hrest, hlength⟩ := readBytes_eq_ok_iff.mp hread
    simp only at h
    split at h
    · rename_i htake
      cases h
      rw [hrest]
      exact congrArg (· ++ tail) ((eq_magic_iff hlength).mp ⟨htake, rfl, rfl⟩)
    · cases h
  · intro hrest
    refine ⟨(magicBytes ++ [major, minor], tail), readBytes_eq_ok_iff.mpr ⟨hrest, rfl⟩, ?_⟩
    exact (if_pos rfl).trans rfl

/-- What a header says, and how long it is. -/
def NpyHeader.Says (lib : ArrayLibraries δ) (header : NpyHeader δ) (text : List UInt8)
    (headerLength : Nat) : Prop :=
  lib.readText text = .ok (header.shape, header.isFortran, header.dtype) ∧
    header.headerLength = headerLength

theorem readArrayHeader_eq_ok_iff {lengthSize : Nat} {header : NpyHeader δ} :
    readArrayHeader lib lengthSize rest = .ok header ↔
      ∃ text tail, text.length < 256 ^ lengthSize ∧
        rest = toBytes lengthSize text.length ++ text ++ tail ∧
          header.Says lib text (8 + lengthSize + text.length) := by
  rw [readArrayHeader, bind_eq_ok]
  constructor
  · rintro ⟨⟨hlength, tail⟩, hread, h⟩
    obtain ⟨rfl, rfl⟩ := readBytes_eq_ok_iff.mp hread
    obtain ⟨⟨text, tail'⟩, hread', hparse⟩ := bind_eq_ok.mp h
    obtain ⟨rfl, hsize⟩ := readBytes_eq_ok_iff.mp hread'
    obtain ⟨⟨shape, isFortran, dtype⟩, htext, hheader⟩ := bind_eq_ok.mp hparse
    cases hheader
    refine ⟨text, tail', hsize ▸ fromBytes_lt hlength, ?_, htext, ?_⟩
    · rw [hsize, toBytes_fromBytes, List.append_assoc]
    · rw [hsize]
  · rintro ⟨text, tail, hfits, rfl, htext, hheader⟩
    have hnumber := fromBytes_toBytes hfits
    refine ⟨(toBytes lengthSize text.length, text ++ tail),
      readBytes_eq_ok_iff.mpr ⟨List.append_assoc _ _ _, length_toBytes _ _⟩, ?_⟩
    refine bind_eq_ok.mpr ⟨(text, tail), readBytes_eq_ok_iff.mpr ⟨rfl, hnumber.symm⟩, ?_⟩
    refine bind_eq_ok.mpr ⟨_, htext, congrArg Except.ok ?_⟩
    cases header
    obtain rfl := hheader
    simp only [hnumber]

theorem parseNpyHeader_eq_ok_iff {fn : String} {header : NpyHeader δ} :
    parseNpyHeader lib fn rest = .ok header ↔
      ∃ version text tail, text.length < 256 ^ version.lengthSize ∧
        rest = headerBytes version text ++ tail ∧
          header.Says lib text (headerBytes version text).length := by
  have hcut : ∀ {version : NpyVersion} {text tail : List UInt8},
      headerBytes version text ++ tail = magicBytes ++ [version.major, 0] ++
        (toBytes version.lengthSize text.length ++ text ++ tail) := by
    intro version text tail
    simp only [headerBytes, List.append_assoc]
  simp only [length_headerBytes, hcut]
  rw [parseNpyHeader, bind_eq_ok]
  constructor
  · rintro ⟨⟨⟨major, minor⟩, tail⟩, hmagic, h⟩
    obtain rfl := readMagic_eq_ok_iff.mp hmagic
    simp only at h
    split at h
    · rename_i hversion
      obtain ⟨rfl, rfl⟩ := hversion
      obtain ⟨text, tail', hfits, rfl, hsays⟩ := readArrayHeader_eq_ok_iff.mp h
      exact ⟨.one, text, tail', hfits, rfl, hsays⟩
    · split at h
      · rename_i hversion
        obtain ⟨rfl, rfl⟩ := hversion
        obtain ⟨text, tail', hfits, rfl, hsays⟩ := readArrayHeader_eq_ok_iff.mp h
        exact ⟨.two, text, tail', hfits, rfl, hsays⟩
      · cases h
  · rintro ⟨version, text, tail, hfits, rfl, hsays⟩
    refine ⟨((version.major, 0), _), readMagic_eq_ok_iff.mpr rfl, ?_⟩
    have hread := readArrayHeader_eq_ok_iff.mpr ⟨text, tail, hfits, rfl, hsays⟩
    cases version with
    | one => exact (if_pos ⟨rfl, rfl⟩).trans hread
    | two => exact (if_neg (by decide)).trans ((if_pos ⟨rfl, rfl⟩).trans hread)

end Headers

/-! ## Arrays as they are written -/

section Records

variable {δ : Type} (lib : ArrayLibraries δ)

/-- An array with its header. -/
structure ArrayRecord where
  version : NpyVersion
  text : List UInt8
  isFortran : Bool
  array : MappedArray lib
  fits : text.length < 256 ^ version.lengthSize
  reads : lib.readText text = .ok (array.shape, isFortran, array.dtype)
  mappable : lib.mappable array.dtype = .ok ()

variable {lib}

/-- The bytes of an array in a file. -/
def ArrayRecord.bytes (record : ArrayRecord lib) : List UInt8 :=
  headerBytes record.version record.text ++ record.array.bytes

def ArrayRecord.header (record : ArrayRecord lib) : NpyHeader δ where
  shape := record.array.shape
  isFortran := record.isFortran
  dtype := record.array.dtype
  headerLength := (headerBytes record.version record.text).length
  headerLength_pos := by
    rw [length_headerBytes]
    omega

theorem ArrayRecord.length_bytes (record : ArrayRecord lib) :
    record.bytes.length = record.header.headerLength + record.header.nbytes lib := by
  rw [bytes, List.length_append, record.array.length_bytes]
  rfl

theorem memmap_eq_ok_iff {data : List UInt8} {offset : Nat} {header : NpyHeader δ}
    {tensor : MappedArray lib} :
    memmap lib data offset header = .ok tensor ↔
      lib.mappable header.dtype = .ok () ∧ offset + header.nbytes lib ≤ data.length ∧
        tensor.dtype = header.dtype ∧ tensor.shape = header.shape ∧
          tensor.bytes = (data.drop offset).take (header.nbytes lib) := by
  rw [memmap, bind_eq_ok]
  constructor
  · rintro ⟨⟨⟩, hmappable, h⟩
    split at h
    · rename_i hle
      cases h
      exact ⟨hmappable, hle, rfl, rfl, rfl⟩
    · cases h
  · rintro ⟨hmappable, hle, hdtype, hshape, hbytes⟩
    refine ⟨(), hmappable, ?_⟩
    rw [dif_pos hle]
    cases tensor
    obtain rfl := hdtype
    obtain rfl := hshape
    obtain rfl := hbytes
    rfl

theorem readTensors_records (fn : String) (records : List (ArrayRecord lib)) (before : List UInt8) :
    readTensors lib fn (before ++ records.flatMap ArrayRecord.bytes) before.length =
      .ok (records.map ArrayRecord.array) := by
  induction records generalizing before with
  | nil =>
      rw [readTensors, if_neg (by simp)]
      rfl
  | cons record rest ih =>
      have hlength := record.length_bytes
      have hpos := record.header.headerLength_pos
      rw [List.flatMap_cons, readTensors, if_pos (by
        simp only [List.length_append]
        omega)]
      have hparse : parseNpyHeader lib fn
          ((before ++ (record.bytes ++ rest.flatMap ArrayRecord.bytes)).drop before.length) =
            .ok record.header := by
        refine parseNpyHeader_eq_ok_iff.mpr ⟨record.version, record.text,
          record.array.bytes ++ rest.flatMap ArrayRecord.bytes, record.fits, ?_, record.reads, rfl⟩
        rw [List.drop_left, ArrayRecord.bytes, List.append_assoc]
      have hmap : memmap lib (before ++ (record.bytes ++ rest.flatMap ArrayRecord.bytes))
          (before.length + record.header.headerLength) record.header = .ok record.array := by
        refine memmap_eq_ok_iff.mpr ⟨record.mappable, ?_, rfl, rfl, ?_⟩
        · simp only [List.length_append]
          omega
        · have hheader : (headerBytes record.version record.text).length =
              record.header.headerLength := rfl
          rw [List.drop_append, List.drop_eq_nil_of_le (Nat.le_add_right _ _), List.nil_append,
            Nat.add_sub_cancel_left, ArrayRecord.bytes, List.append_assoc, List.drop_left' hheader]
          exact (List.take_left' record.array.length_bytes).symm
      have hrest := ih (before ++ record.bytes)
      rw [List.length_append, hlength, List.append_assoc] at hrest
      rw [bind_of_ok hparse, bind_of_ok hmap, bind_of_ok hrest]
      rfl

/-- What is read is a row of arrays. -/
theorem records_of_readTensors {fn : String} {data : List UInt8} {offset : Nat}
    {tensors : List (MappedArray lib)} (h : readTensors lib fn data offset = .ok tensors) :
    ∃ records : List (ArrayRecord lib), data.drop offset = records.flatMap ArrayRecord.bytes ∧
      tensors = records.map ArrayRecord.array := by
  induction hleft : data.length - offset using Nat.strongRecOn generalizing offset tensors with
  | ind left ih =>
      rw [readTensors] at h
      split at h
      · rename_i hlt
        obtain ⟨header, hparse, h⟩ := bind_eq_ok.mp h
        obtain ⟨tensor, hmap, h⟩ := bind_eq_ok.mp h
        obtain ⟨rest, hrest, h⟩ := bind_eq_ok.mp h
        cases h
        have hpos := header.headerLength_pos
        obtain ⟨records, hdata, rfl⟩ := ih _ (by omega) hrest rfl
        obtain ⟨version, text, tail, hfits, hdrop, hreads, hlength⟩ :=
          parseNpyHeader_eq_ok_iff.mp hparse
        obtain ⟨hmappable, -, hdtype, hshape, hbytes⟩ := memmap_eq_ok_iff.mp hmap
        let record : ArrayRecord lib := {
          version
          text
          isFortran := header.isFortran
          array := tensor
          fits := hfits
          reads := by rw [hreads, hdtype, hshape]
          mappable := by rw [hdtype, hmappable] }
        refine ⟨record :: records, ?_, rfl⟩
        have htail : data.drop (offset + header.headerLength) = tail := by
          rw [← List.drop_drop, hdrop, List.drop_left' hlength.symm]
        rw [List.flatMap_cons, ← hdata, ← Nat.add_assoc, ← List.drop_drop (i := header.nbytes lib),
          htail, hdrop, ArrayRecord.bytes, List.append_assoc, hbytes, htail, List.take_append_drop]
      · rename_i hend
        cases h
        exact ⟨[], List.drop_eq_nil_of_le (Nat.le_of_not_lt hend), rfl⟩

/-- A file is read as the arrays that it is a row of. -/
theorem readTensors_eq_ok_iff {fn : String} {data : List UInt8} {tensors : List (MappedArray lib)} :
    readTensors lib fn data 0 = .ok tensors ↔
      ∃ records : List (ArrayRecord lib), data = records.flatMap ArrayRecord.bytes ∧
        tensors = records.map ArrayRecord.array := by
  constructor
  · exact records_of_readTensors
  · rintro ⟨records, rfl, rfl⟩
    exact readTensors_records fn records []

end Records

/-! ## Views as they succeed -/

section Views

variable {δ : Type} {lib : ArrayLibraries δ}

/-- The array is the tensor that the meta says: the same bytes, under its dtype and shape. -/
structure Gives (fileMeta : FileMeta) (tensor : MappedArray lib) (shard : Shard ByteTensor) :
    Prop where
  isTensor : fileMeta.isTensor = true
  shape_ne : fileMeta.shape ≠ []
  /-- the elements can be taken as those of the dtype -/
  elements : ∃ dtype, lib.fromNumpy tensor.dtype = .ok dtype ∧
    (fileMeta.dtype.itemsize = dtype.itemsize ∨
      Scales dtype.itemsize fileMeta.dtype.itemsize tensor.shape)
  name : shard.name = fileMeta.key
  dtype : shard.weight.dtype = fileMeta.dtype
  shape : shard.weight.shape = fileMeta.shape
  bytes : shard.weight.bytes = tensor.bytes
  tpConcatDim : shard.tpConcatDim = fileMeta.tpConcatDim
  shapeIsSize : shard.shapeIsSize = fileMeta.shapeIsSize
  metaText : shard.metaText = fileMeta.text

theorem fromNumpy_eq_ok_iff {tensor : MappedArray lib} {t : ByteTensor} :
    fromNumpy lib tensor = .ok t ↔
      lib.fromNumpy tensor.dtype = .ok t.dtype ∧ t.shape = tensor.shape ∧
        t.bytes = tensor.bytes := by
  unfold fromNumpy
  constructor
  · intro h
    split at h
    · rename_i dtype hdtype
      cases h
      exact ⟨hdtype, rfl, rfl⟩
    · cases h
  · rintro ⟨hdtype, hshape, hbytes⟩
    split
    · rename_i dtype hdtype'
      obtain rfl := Except.ok.inj (hdtype.symm.trans hdtype')
      cases t
      obtain rfl := hshape
      obtain rfl := hbytes
      rfl
    · rename_i error herror
      cases hdtype.symm.trans herror

theorem viewDType_eq_ok {tensor t : ByteTensor} {dtype : DType}
    (h : viewDType lib tensor dtype = .ok t) :
    (dtype.itemsize = tensor.dtype.itemsize ∨
      Scales tensor.dtype.itemsize dtype.itemsize tensor.shape) ∧
      t.dtype = dtype ∧ t.bytes = tensor.bytes := by
  unfold viewDType at h
  split at h
  · rename_i hsame
    cases h
    exact ⟨.inl hsame, rfl, rfl⟩
  · split at h
    · rename_i hscales
      cases h
      exact ⟨.inr hscales, rfl, rfl⟩
    · cases h

theorem exists_viewDType {tensor : ByteTensor} {dtype : DType}
    (h : dtype.itemsize = tensor.dtype.itemsize ∨
      Scales tensor.dtype.itemsize dtype.itemsize tensor.shape) :
    ∃ t, viewDType lib tensor dtype = .ok t := by
  unfold viewDType
  split
  · exact ⟨_, rfl⟩
  · rename_i hdiffer
    rw [dif_pos (h.resolve_left hdiffer)]
    exact ⟨_, rfl⟩

theorem DType.itemsize_pos (dtype : DType) : 0 < dtype.itemsize := by
  cases dtype <;> decide

theorem viewTensor_eq_ok_iff {fileMeta : FileMeta} {tensor : MappedArray lib}
    {shard : Shard ByteTensor} :
    viewTensor lib fileMeta tensor = .ok shard ↔ Gives fileMeta tensor shard := by
  unfold viewTensor
  constructor
  · intro h
    split at h
    · rename_i htensor
      obtain ⟨t, hnumpy, h⟩ := bind_eq_ok.mp h
      obtain ⟨t', hview, h⟩ := bind_eq_ok.mp h
      obtain ⟨t'', hshape, h⟩ := bind_eq_ok.mp h
      cases h
      obtain ⟨hdtype, hshape', hbytes⟩ := fromNumpy_eq_ok_iff.mp hnumpy
      obtain ⟨hscales, hdtype', hbytes'⟩ := viewDType_eq_ok hview
      rw [viewShape] at hshape
      split at hshape
      · rename_i hsizes
        cases hshape
        rw [hshape'] at hscales
        exact ⟨htensor, hsizes.1, ⟨_, hdtype, hscales⟩, rfl, hdtype', rfl, hbytes'.trans hbytes,
          rfl, rfl, rfl⟩
      · cases hshape
    · cases h
  · intro h
    obtain ⟨dtype, hdtype, hscales⟩ := h.elements
    obtain ⟨t, hnumpy⟩ : ∃ t, fromNumpy lib tensor = .ok t :=
      ⟨⟨dtype, tensor.shape, tensor.bytes, by
        rw [lib.itemsize_fromNumpy hdtype, tensor.length_bytes]⟩,
        fromNumpy_eq_ok_iff.mpr ⟨hdtype, rfl, rfl⟩⟩
    obtain ⟨hdtype', hshape, hbytes⟩ := fromNumpy_eq_ok_iff.mp hnumpy
    obtain rfl := Except.ok.inj (hdtype.symm.trans hdtype')
    obtain ⟨t', hview⟩ := @exists_viewDType _ lib _ _ (hshape.symm ▸ hscales)
    obtain ⟨-, hdtype'', hbytes'⟩ := viewDType_eq_ok hview
    have hsizes : fileMeta.shape ≠ [] ∧ numel fileMeta.shape = numel t'.shape := by
      refine ⟨h.shape_ne, Nat.eq_of_mul_eq_mul_left (DType.itemsize_pos fileMeta.dtype) ?_⟩
      have hlength := shard.weight.length_bytes
      rw [h.dtype, h.shape, h.bytes, ← hbytes, ← hbytes', t'.length_bytes, hdtype''] at hlength
      exact hlength.symm
    rw [if_pos h.isTensor, bind_of_ok hnumpy, bind_of_ok hview, viewShape, dif_pos hsizes]
    refine congrArg Except.ok ?_
    obtain ⟨-, -, -, hname, hdtype, hshape, hbytes'', hdim, hsize, htext⟩ := h
    obtain ⟨name, ⟨dtype', shape, bytes, hlength⟩, tpConcatDim, shapeIsSize, metaText⟩ := shard
    obtain rfl := hname
    obtain rfl := hdtype
    obtain rfl := hshape
    obtain rfl := hbytes''
    obtain rfl := hdim
    obtain rfl := hsize
    obtain rfl := htext
    simp only [hdtype'', hbytes', hbytes]

/-- The dictionary of these entries, later ones over earlier ones. -/
def dictOf (shards : List (Shard ByteTensor)) : List (Shard ByteTensor) :=
  shards.foldl (fun ret shard => setItem Shard.name shard ret) []

/-- The tensors are those that the metas make of the arrays, one after the other. -/
def AllGive (metas : List FileMeta) (tensors : List (MappedArray lib))
    (shards : List (Shard ByteTensor)) : Prop :=
  metas.length = tensors.length ∧
    List.Forall₂ (fun x shard => Gives x.1 x.2 shard) (metas.zip tensors) shards

theorem fastNpLoad_ok {disk : ArrayDisk} {fn : String} {metas : List FileMeta}
    {records : List (ArrayRecord lib)} {shards : List (Shard ByteTensor)}
    (hmetas : disk.pickled (fn ++ ".meta") = .ok metas)
    (hdata : disk.contents fn = .ok (records.flatMap ArrayRecord.bytes))
    (hgive : AllGive metas (records.map ArrayRecord.array) shards) :
    fastNpLoad lib disk fn = .ok (dictOf shards) := by
  have htensors := (@readTensors_eq_ok_iff _ lib fn _ _).mpr ⟨records, rfl, rfl⟩
  have hviews := mapM_eq_ok_iff.mpr (hgive.2.imp fun x shard => viewTensor_eq_ok_iff.mpr)
  unfold fastNpLoad
  rw [bind_of_ok hmetas, bind_of_ok hdata, bind_of_ok htensors, if_pos hgive.1]
  exact bind_eq_ok.mpr ⟨shards, hviews, rfl⟩

/-- **An array file is read as what it is.**  The reader accepts a file exactly when it is a
row of arrays with their headers, as many as there are metas, each of which can be viewed
as its meta says; and the dictionary has the bytes of every array as they are. -/
theorem array_file_read_exactly (lib : ArrayLibraries δ) (disk : ArrayDisk) (fn : String)
    (ret : List (Shard ByteTensor)) :
    fastNpLoad lib disk fn = .ok ret ↔
      ∃ (metas : List FileMeta) (records : List (ArrayRecord lib))
        (shards : List (Shard ByteTensor)),
        disk.pickled (fn ++ ".meta") = .ok metas ∧
          disk.contents fn = .ok (records.flatMap ArrayRecord.bytes) ∧
            AllGive metas (records.map ArrayRecord.array) shards ∧ ret = dictOf shards := by
  constructor
  · intro h
    obtain ⟨metas, hmetas, h⟩ := bind_eq_ok.mp h
    obtain ⟨data, hdata, h⟩ := bind_eq_ok.mp h
    obtain ⟨tensors, htensors, h⟩ := bind_eq_ok.mp h
    obtain ⟨records, rfl, rfl⟩ := readTensors_eq_ok_iff.mp htensors
    split at h
    · rename_i hlength
      obtain ⟨shards, hshards, h⟩ := bind_eq_ok.mp h
      cases h
      refine ⟨metas, records, shards, hmetas, hdata, ⟨hlength, ?_⟩, rfl⟩
      exact (mapM_eq_ok_iff.mp hshards).imp fun x shard => viewTensor_eq_ok_iff.mp
    · cases h
  · rintro ⟨metas, records, shards, hmetas, hdata, hgive, rfl⟩
    exact fastNpLoad_ok hmetas hdata hgive

end Views

end CheckpointEngine.Registry.TensorParallel
