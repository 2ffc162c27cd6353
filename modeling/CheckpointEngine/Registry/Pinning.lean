/-
  `Registry.Pinning`: from the tensors of a checkpoint to memory buffers,
  `_register_checkpoint` and what it calls in `checkpoint_engine/pin_memory.py`.

  What the tensors contain plays no part here.  Files, the allocator and the
  pinning calls are the `Host`'s.
-/
import CheckpointEngine.DataTypes
import CheckpointEngine.Foundation.Fallible
import Mathlib.Data.List.Sort

set_option autoImplicit false

namespace CheckpointEngine.Registry

open CheckpointEngine.Foundation

/-- A one-dimensional `uint8` tensor. -/
structure Tensor where
  ptr : Nat
  nbytes : Nat
  deriving DecidableEq, Repr, Inhabited

/-- `MemoryBuffer`. -/
structure MemoryBuffer (Size : Type := Nat) where
  buffer : Tensor
  size : Nat
  metas : List (ParameterMeta Size)
  manuallyPinned : Bool
  deriving DecidableEq, Repr, Inhabited

/-- `_ALIGN_SIZE`. -/
def alignBytes : Nat := 256

/-- `_align_size`. -/
def alignSize (dtype : DType) (shape : TorchSize) : Nat :=
  (dtype.itemsize * numel shape + alignBytes - 1) / alignBytes * alignBytes

/-- A tensor of a checkpoint. -/
structure Parameter where
  name : String
  dtype : DType
  shape : TorchSize
  deriving DecidableEq, Repr, Inhabited

/-- An entry of a safetensors header, with its `data_offsets` and `end - start`.  Natural
numbers say that it does not end before it starts; integers allow that. -/
structure HeaderEntry (Size : Type := Nat) [Add Size] where
  name : String
  dtype : DType
  shape : TorchSize
  start : Size
  stop : Size
  size : Size
  start_add_size : start + size = stop
  deriving DecidableEq, Repr

theorem HeaderEntry.start_le (entry : HeaderEntry) : entry.start ≤ entry.stop :=
  entry.start_add_size ▸ Nat.le_add_right _ _

theorem HeaderEntry.size_eq (entry : HeaderEntry) : entry.size = entry.stop - entry.start :=
  (Nat.sub_eq_of_eq_add' entry.start_add_size.symm).symm

/-- A safetensors file: its header without `__metadata__`, and the number of bytes
behind the header. -/
structure SafetensorsFile (Size : Type := Nat) [Add Size] where
  header : List (HeaderEntry Size)
  nbytes : Nat
  deriving DecidableEq, Repr

/-- What the functions find around them. -/
structure Host (Size : Type := Nat) [Add Size] where
  /-- `_load_checkpoint`: the tensors in the files, each name once -/
  loadCheckpoint : List String → Except PyError (List Parameter)
  /-- the file at a path, or what reading and parsing it raises -/
  safetensors : String → Except PyError (SafetensorsFile Size)
  /-- where the `k`-th new buffer lies -/
  allocate : Nat → Nat
  /-- what `_pin` raises for a file -/
  pinRaises : String → Option PyError

/-- Every entry spans its tensor and starts at a multiple of its itemsize. -/
def SafetensorsFile.WellFormed (file : SafetensorsFile) : Prop :=
  ∀ entry ∈ file.header, entry.stop = entry.start + entry.dtype.itemsize * numel entry.shape ∧
    entry.dtype.itemsize ∣ entry.start

instance (file : SafetensorsFile) : Decidable file.WellFormed :=
  inferInstanceAs (Decidable (∀ entry ∈ file.header, _ ∧ _))

section Registration

variable {Size : Type} [OfNat Size 0] [NatCast Size] [Add Size] [LinearOrder Size]
  [ToString Size]

/-- What `gather_metas` announces of memory buffers. -/
def announced (buffers : List (MemoryBuffer Size)) : List (MemoryBufferMetas Size) :=
  buffers.map fun x => ⟨x.metas, x.buffer.ptr, x.size⟩

/-! ## Pinned copies -/

/-- A bucket of `_normal_pin_memory`. -/
structure MemoryBucket (Size : Type := Nat) where
  size : Nat
  metas : List (ParameterMeta Size)
  deriving DecidableEq, Repr

/-- One iteration of the packing loop, on `buckets[:-1]` and `buckets[-1]`. -/
def packStep (bucketSize : Nat) (buckets : List (MemoryBucket Size) × MemoryBucket Size)
    (param : Parameter) : List (MemoryBucket Size) × MemoryBucket Size :=
  let size := alignSize param.dtype param.shape
  let buckets :=
    if buckets.2.size + size > bucketSize then (buckets.1 ++ [buckets.2], ⟨0, []⟩) else buckets
  (buckets.1, ⟨buckets.2.size + size,
    buckets.2.metas ++ [⟨param.name, param.dtype, param.shape, size⟩]⟩)

/-- `buckets` after the packing loop. -/
def packBuckets (parameters : List Parameter) : List (MemoryBucket Size) :=
  let largest := (parameters.map fun x => alignSize x.dtype x.shape).foldl max 0
  let packed := (parameters.insertionSort fun x y => x.name ≤ y.name).foldl
    (packStep (max (4 <<< 30) largest)) ([], ⟨0, []⟩)
  packed.1 ++ [packed.2]

/-- `parameters.update(named_tensors)`. -/
def updateParameters (parameters namedTensors : List Parameter) : List Parameter :=
  (parameters.filter fun x => x.name ∉ namedTensors.map (·.name)) ++ namedTensors

/-- `register_pin_memory` and the assertion on what it returns: the buffer of the
shared pool, or a new one. -/
def registerPinMemory (host : Host Size) (shared : List (MemoryBuffer Size)) (idx size : Nat) :
    Except PyError Tensor :=
  if shared.isEmpty then
    .ok ⟨host.allocate idx, size⟩
  else
    match shared[idx]? with
    | none => .error (.assertionError
        s!"idx {idx} should be less than shared_pin_memory length {shared.length}")
    | some old =>
        if old.size ≠ size then .error (.assertionError
          s!"shared_pin_memory[{idx}].size {old.size} should be equal to {size}")
        else if old.buffer.nbytes ≠ size then .error (.assertionError
          s!"buffer numel {old.buffer.nbytes} should be equal to bucket size {size}")
        else .ok old.buffer

/-- `_normal_pin_memory`. -/
def normalPinMemory (host : Host Size) (files : List String) (namedTensors : List Parameter)
    (shared : List (MemoryBuffer Size)) : Except PyError (List (MemoryBuffer Size)) := do
  let loaded ← host.loadCheckpoint files
  let parameters := updateParameters loaded namedTensors
  if parameters.isEmpty then
    .error (.valueError "max() arg is an empty sequence")
  else
    (packBuckets parameters).zipIdx.mapM fun (bucket, idx) => do
      let buffer ← registerPinMemory host shared idx bucket.size
      return ⟨buffer, bucket.size, bucket.metas, false⟩

/-! ## Files pinned in place -/

/-- The loop over the sorted header entries, from `offset` on: where it ends, and
the metas. -/
def parseHeader :
    Size → List (HeaderEntry Size) → Except PyError (Size × List (ParameterMeta Size))
  | offset, [] => .ok (offset, [])
  | offset, entry :: rest =>
      if offset = entry.start then do
        let (last, metas) ← parseHeader entry.stop rest
        return (last, ⟨entry.name, entry.dtype, entry.shape, entry.size⟩ :: metas)
      else
        .error (.assertionError s!"offset {offset} should be equal to start {entry.start}")

/-- The header entries by `data_offsets`. -/
def sortHeader (header : List (HeaderEntry Size)) : List (HeaderEntry Size) :=
  header.insertionSort fun x y => x.start < y.start ∨ x.start = y.start ∧ x.stop ≤ y.stop

/-- `_parse_and_pin_from_safetensors`; the bytes behind the header lie at `ptr`. -/
def parseAndPin (host : Host Size) (ptr : Nat) (filePath : String) :
    Except PyError (MemoryBuffer Size) := do
  let file ← host.safetensors filePath
  let (offset, metas) ← parseHeader 0 (sortHeader file.header)
  if offset ≠ (file.nbytes : Size) then
    .error (.assertionError s!"offset {offset} should be equal to buffer.nbytes {file.nbytes}")
  else if metas.isEmpty then
    return ⟨⟨ptr, file.nbytes⟩, file.nbytes, [], false⟩
  else
    match host.pinRaises filePath with
    | some error => .error error
    | none => return ⟨⟨ptr, file.nbytes⟩, file.nbytes, metas, true⟩

/-- The file is pinned in place where that is allowed. -/
def inplacePath (file : String) : Bool :=
  "/dev/shm/".toList.isPrefixOf file.toList && ".safetensors".toList.isSuffixOf file.toList

/-! ## All buffers of a checkpoint -/

/-- `_register_checkpoint`; the empty list `shared` stands for `None` as well. -/
def registerCheckpoint (host : Host Size) (files : List String) (namedTensors : List Parameter)
    (shared : List (MemoryBuffer Size)) (inplacePin : Bool) :
    Except PyError (List (MemoryBuffer Size)) :=
  if files.isEmpty && namedTensors.isEmpty then
    .ok []
  else do
    let toInplacePin := if inplacePin then files.filter inplacePath else []
    let toNormalPin := files.filter (· ∉ toInplacePin)
    let normal ← (if toNormalPin.isEmpty && namedTensors.isEmpty then .ok []
      else normalPinMemory host toNormalPin namedTensors shared)
    let inplace ← toInplacePin.zipIdx.mapM fun (file, idx) =>
      parseAndPin host (host.allocate (normal.length + idx)) file
    return normal ++ inplace

/-- The number of buffers a checkpoint that is not pinned in place is packed into. -/
def packedCount (host : Host Size) (files : List String) (namedTensors : List Parameter) : Nat :=
  if files.isEmpty && namedTensors.isEmpty then
    0
  else
    match host.loadCheckpoint files with
    | .ok loaded => (packBuckets (updateParameters loaded namedTensors) :
        List (MemoryBucket Size)).length
    | .error _ => 0

end Registration

/-- A header without entries ends where it starts. -/
theorem parseHeader_nil {Size : Type} [Add Size] [LinearOrder Size] [ToString Size]
    {offset last : Size} {entries : List (HeaderEntry Size)}
    (h : parseHeader offset entries = .ok (last, [])) : last = offset := by
  cases entries with
  | nil =>
      obtain ⟨rfl, -⟩ := Prod.mk.inj (Except.ok.inj h)
      rfl
  | cons entry rest =>
      unfold parseHeader at h
      split at h
      · obtain ⟨_, _, h⟩ := bind_eq_ok.mp h
        cases Except.ok.inj h
      · cases h

/-! ## Where the buffers lie -/

section Buffers

variable {Size : Type} [Add Size]

/-- Where `register_pin_memory` takes a buffer from. -/
theorem registerPinMemory_ok {host : Host Size} {shared : List (MemoryBuffer Size)} {idx size : Nat}
    {buffer : Tensor} (h : registerPinMemory host shared idx size = .ok buffer) :
    if shared = [] then buffer.ptr = host.allocate idx
    else (shared[idx]?).map (·.buffer) = some buffer := by
  unfold registerPinMemory at h
  cases shared with
  | nil =>
      obtain rfl := Except.ok.inj h
      rfl
  | cons first rest =>
      simp only [List.isEmpty_cons, Bool.false_eq_true, if_false] at h
      rw [if_neg (by simp)]
      cases hget : (first :: rest)[idx]? with
      | none => rw [hget] at h; cases h
      | some old =>
          rw [hget] at h
          simp only [ne_eq, ite_not] at h
          split at h
          · split at h
            · exact congrArg some (Except.ok.inj h)
            · cases h
          · cases h

variable [NatCast Size]

/-- A buffer of pinned copies is made for a bucket. -/
theorem normalPinMemory_bucket {host : Host Size} {files : List String}
    {namedTensors : List Parameter} {shared bs : List (MemoryBuffer Size)}
    (h : normalPinMemory host files namedTensors shared = .ok bs) {b : MemoryBuffer Size}
    (hb : b ∈ bs) :
    ∃ parameters, ∃ bucket ∈ packBuckets parameters, ∃ idx,
      registerPinMemory host shared idx bucket.size = .ok b.buffer ∧
        b.size = bucket.size ∧ b.metas = bucket.metas := by
  unfold normalPinMemory at h
  obtain ⟨parameters, _, h⟩ := bind_eq_ok.mp h
  simp only at h
  split at h
  · cases h
  · obtain ⟨i, hi⟩ := List.getElem?_of_mem hb
    obtain ⟨bucket, hget, hbucket⟩ := (mapM_zipIdx_ok h).2 i b hi
    obtain ⟨buffer, hbuffer, hbucket⟩ := bind_eq_ok.mp hbucket
    obtain rfl := Except.ok.inj hbucket
    exact ⟨_, bucket, List.mem_of_getElem? hget, _, hbuffer, rfl, rfl⟩

theorem normalPinMemory_ok {host : Host Size} {files : List String} {namedTensors : List Parameter}
    {shared bs : List (MemoryBuffer Size)}
    (h : normalPinMemory host files namedTensors shared = .ok bs) :
    ∃ loaded, host.loadCheckpoint files = .ok loaded ∧
      bs.length = (packBuckets (updateParameters loaded namedTensors) :
        List (MemoryBucket Size)).length ∧
      ∀ i b, bs[i]? = some b →
        if shared = [] then b.buffer.ptr = host.allocate i
        else (shared[i]?).map (·.buffer) = some b.buffer := by
  unfold normalPinMemory at h
  obtain ⟨loaded, hload, h⟩ := bind_eq_ok.mp h
  simp only at h
  split at h
  · cases h
  · obtain ⟨hlength, hplaces⟩ := mapM_zipIdx_ok h
    refine ⟨loaded, hload, hlength, fun i b hb => ?_⟩
    obtain ⟨bucket, _, hbucket⟩ := hplaces i b hb
    obtain ⟨buffer, hbuffer, hbucket⟩ := bind_eq_ok.mp hbucket
    obtain rfl := Except.ok.inj hbucket
    rw [Nat.zero_add] at hbuffer
    exact registerPinMemory_ok hbuffer

variable [OfNat Size 0] [LinearOrder Size] [ToString Size]

/-- What `_parse_and_pin_from_safetensors` returns: the bytes behind a header that they fill. -/
theorem parseAndPin_parsed {host : Host Size} {ptr : Nat} {filePath : String}
    {b : MemoryBuffer Size} (h : parseAndPin host ptr filePath = .ok b) :
    ∃ file, host.safetensors filePath = .ok file ∧
      parseHeader 0 (sortHeader file.header) = .ok ((file.nbytes : Size), b.metas) ∧
      b.buffer = ⟨ptr, file.nbytes⟩ ∧ b.size = file.nbytes := by
  unfold parseAndPin at h
  obtain ⟨file, hfile, h⟩ := bind_eq_ok.mp h
  obtain ⟨⟨offset, metas⟩, hparse, h⟩ := bind_eq_ok.mp h
  refine ⟨file, hfile, ?_⟩
  simp only [ne_eq, ite_not] at h
  split at h
  · rename_i hoffset
    rw [hoffset] at hparse
    split at h
    · rename_i hempty
      obtain rfl := Except.ok.inj h
      rw [List.isEmpty_iff.mp hempty] at hparse
      exact ⟨hparse, rfl, rfl⟩
    · split at h
      · cases h
      · obtain rfl := Except.ok.inj h
        exact ⟨hparse, rfl, rfl⟩
  · cases h

/-- What holds of every pinned copy and of every file pinned in place holds of what
`_register_checkpoint` returns. -/
theorem registerCheckpoint_forall {host : Host Size} {files : List String}
    {namedTensors : List Parameter} {shared loaded : List (MemoryBuffer Size)} {inplacePin : Bool}
    {P : MemoryBuffer Size → Prop}
    (hnormal : ∀ {files normal}, normalPinMemory host files namedTensors shared = .ok normal →
      ∀ b ∈ normal, P b)
    (hinplace : ∀ {ptr file b}, parseAndPin host ptr file = .ok b → P b)
    (h : registerCheckpoint host files namedTensors shared inplacePin = .ok loaded) :
    ∀ b ∈ loaded, P b := by
  unfold registerCheckpoint at h
  split at h
  · obtain rfl := Except.ok.inj h
    exact nofun
  · obtain ⟨normal, hcopied, h⟩ := bind_eq_ok.mp h
    obtain ⟨inplace, hpinned, h⟩ := bind_eq_ok.mp h
    obtain rfl : normal ++ inplace = loaded := Except.ok.inj h
    generalize (if inplacePin = true then files.filter inplacePath else []) = toInplacePin
      at hcopied hpinned
    intro b hb
    rcases List.mem_append.mp hb with hb | hb
    · split at hcopied
      · obtain rfl : [] = normal := Except.ok.inj hcopied
        cases hb
      · exact hnormal hcopied b hb
    · obtain ⟨i, hi⟩ := List.getElem?_of_mem hb
      obtain ⟨file, _, hfile⟩ := (mapM_zipIdx_ok hpinned).2 i b hi
      exact hinplace hfile

/-- A checkpoint that is not pinned in place has as many buffers as it is packed into:
the shared pool's first ones, or new ones. -/
theorem registerCheckpoint_copied {host : Host Size} {files : List String}
    {namedTensors : List Parameter} {shared bs : List (MemoryBuffer Size)}
    (h : registerCheckpoint host files namedTensors shared false = .ok bs) :
    bs.length = packedCount host files namedTensors ∧
      (bs = [] → files = [] ∧ namedTensors = []) ∧
      ∀ i b, bs[i]? = some b →
        if shared = [] then b.buffer.ptr = host.allocate i
        else (shared[i]?).map (·.buffer) = some b.buffer := by
  unfold registerCheckpoint at h
  unfold packedCount
  split at h
  · rename_i hempty
    obtain rfl := Except.ok.inj h
    have hboth : files = [] ∧ namedTensors = [] := by simpa using hempty
    simp [hboth]
  · rename_i hempty
    have hfilter : files.filter (fun file => decide (file ∉ ([] : List String))) = files := by
      simp
    simp only [Bool.false_eq_true, if_false, hfilter, if_neg hempty] at h
    obtain ⟨normal, hnormal, h⟩ := bind_eq_ok.mp h
    obtain rfl : normal ++ [] = bs := Except.ok.inj h
    obtain ⟨loaded, hload, hlength, hplaces⟩ := normalPinMemory_ok hnormal
    rw [List.append_nil, if_neg hempty, hload]
    refine ⟨hlength, fun hnil => ?_, hplaces⟩
    rw [hnil] at hlength
    simp [packBuckets] at hlength

/-- Without a pool to reuse every buffer is a new one. -/
theorem registerCheckpoint_fresh {host : Host Size} {files : List String}
    {namedTensors : List Parameter} {inplacePin : Bool} {bs : List (MemoryBuffer Size)}
    (h : registerCheckpoint host files namedTensors [] inplacePin = .ok bs) :
    ∀ i b, bs[i]? = some b → b.buffer.ptr = host.allocate i := by
  unfold registerCheckpoint at h
  split at h
  · obtain rfl := Except.ok.inj h
    simp
  · obtain ⟨normal, hnormal, h⟩ := bind_eq_ok.mp h
    obtain ⟨inplace, hinplace, h⟩ := bind_eq_ok.mp h
    obtain rfl : normal ++ inplace = bs := Except.ok.inj h
    generalize (if inplacePin = true then files.filter inplacePath else []) = toInplacePin
      at hnormal hinplace
    intro i b hb
    rcases Nat.lt_or_ge i normal.length with hlt | hge
    · rw [List.getElem?_append_left hlt] at hb
      split at hnormal
      · obtain rfl : [] = normal := Except.ok.inj hnormal
        cases hb
      · obtain ⟨_, _, _, hplaces⟩ := normalPinMemory_ok hnormal
        simpa using hplaces i b hb
    · rw [List.getElem?_append_right hge] at hb
      obtain ⟨file, _, hfile⟩ := (mapM_zipIdx_ok hinplace).2 _ b hb
      obtain ⟨_, _, _, hbuffer, _⟩ := parseAndPin_parsed hfile
      rw [hbuffer]
      simp only
      congr 1
      omega

end Buffers

end CheckpointEngine.Registry
