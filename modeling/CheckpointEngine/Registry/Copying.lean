/-
  `Registry.Copying`: allocating and copying in `_normal_pin_memory`, in any order.

  Buffers are allocated and tensors are copied by a pool of threads.  The main thread
  takes the buffers over in the order in which they are ready and submits the copies of
  the bucket each time, so these run among the allocations and copies of the others.  A
  copy is one step here: the copies have no address in common, so taking them apart
  further would change nothing.

  The tensors lie outside the buffers they are copied to, and keep their bytes meanwhile.
-/
import CheckpointEngine.Registry.Packing
import CheckpointEngine.Foundation.Machine
import CheckpointEngine.Foundation.Grouping

set_option autoImplicit false

namespace CheckpointEngine.Registry

open CheckpointEngine.Foundation

/-- Where `_normal_pin_memory` has come to. -/
structure PinState where
  /-- `memory_buffers` -/
  memoryBuffers : List MemoryBuffer
  /-- `futures`: the buckets whose buffers have not been taken over -/
  futures : List Nat
  /-- `new_futures`: the copies that have not been made -/
  newFutures : List (Write UInt8)
  /-- what the main thread has raised -/
  raised : Option PyError
  memory : Bytes

/-- What completes next. -/
inductive Completion where
  /-- `register_pin_memory` for this bucket -/
  | registerPinMemory (idx : Nat)
  /-- `register_tensor`, the one in this place among those not made -/
  | registerTensor (task : Nat)
  deriving DecidableEq, Repr

/-- `MemoryBuffer(buffer=torch.empty(0), size=bucket.size, metas=bucket.metas)`. -/
def MemoryBucket.unpinned (bucket : MemoryBucket) : MemoryBuffer :=
  ⟨⟨0, 0⟩, bucket.size, bucket.metas, false⟩

/-- The state before the first future. -/
def PinState.start (parameters : List LoadedTensor) (memory : Bytes) : PinState :=
  let buckets := packBuckets (parameters.map LoadedTensor.toParameter)
  if parameters.isEmpty then
    ⟨[], [], [], some (.valueError "max() arg is an empty sequence"), memory⟩
  else
    ⟨buckets.map MemoryBucket.unpinned, List.range buckets.length, [], none, memory⟩

/-- The main thread takes the buffer of a bucket over and submits its copies. -/
def PinState.takeBuffer (host : Host) (parameters : List LoadedTensor)
    (shared : List MemoryBuffer) (s : PinState) (idx : Nat) (bucket : MemoryBucket) : PinState :=
  let s := { s with futures := s.futures.erase idx }
  match registerPinMemory host shared idx bucket.size with
  | .error error => { s with raised := some error }
  | .ok buffer =>
      let (tasks, raised) := registerTensorTasks parameters buffer.ptr 0 bucket.metas
      { s with
        memoryBuffers := s.memoryBuffers.modify idx fun b => { b with buffer }
        newFutures := s.newFutures ++ tasks
        raised }

/-- A task completes.  When the main thread has raised it takes no more buffers over. -/
def PinState.step (host : Host) (parameters : List LoadedTensor) (shared : List MemoryBuffer)
    (s : PinState) : Completion → Option PinState
  | .registerPinMemory idx =>
      if idx ∈ s.futures ∧ s.raised = none then
        ((packBuckets (parameters.map LoadedTensor.toParameter))[idx]?).map fun bucket =>
          s.takeBuffer host parameters shared idx bucket
      else none
  | .registerTensor task =>
      (s.newFutures[task]?).map fun write =>
        { s with newFutures := s.newFutures.eraseIdx task, memory := s.memory.write write }

/-- `_normal_pin_memory` from the sorted parameters on. -/
def pinning (host : Host) (parameters : List LoadedTensor) (shared : List MemoryBuffer)
    (memory : Bytes) : Machine PinState Completion where
  init := .start parameters memory
  step := PinState.step host parameters shared

/-- The addresses of a tensor. -/
def Tensor.region (tensor : Tensor) : Region := ⟨tensor.ptr, tensor.nbytes⟩

/-- Buffers for all buckets: new ones do not overlap; or there is a shared pool, with
buffers of the same sizes that do not overlap. -/
def Provides (host : Host) (shared : List MemoryBuffer) (buckets : List MemoryBucket) : Prop :=
  if shared = [] then
    ∀ (i j : Nat) (bucket bucket' : MemoryBucket), i < j → buckets[i]? = some bucket →
      buckets[j]? = some bucket' →
        (⟨host.allocate i, bucket.size⟩ : Region).Apart ⟨host.allocate j, bucket'.size⟩
  else
    (∀ (i : Nat) (bucket : MemoryBucket), buckets[i]? = some bucket → ∃ old : MemoryBuffer,
      shared[i]? = some old ∧ old.size = bucket.size ∧ old.buffer.nbytes = bucket.size) ∧
      shared.Pairwise fun b b' => b.buffer.region.Apart b'.buffer.region

/-! ## The buffers that are returned -/

/-- The buffers of all buckets, taken over one after the other. -/
def pinnedBuffers (host : Host) (shared : List MemoryBuffer) (buckets : List MemoryBucket) :
    Except PyError (List MemoryBuffer) :=
  buckets.zipIdx.mapM fun (bucket, idx) => do
    let buffer ← registerPinMemory host shared idx bucket.size
    return { bucket.unpinned with buffer }

theorem normalPinMemory_eq {host : Host} {files : List String}
    {namedTensors loaded : List Parameter} {shared : List MemoryBuffer}
    (hload : host.loadCheckpoint files = .ok loaded)
    (hne : updateParameters loaded namedTensors ≠ []) :
    normalPinMemory host files namedTensors shared =
      pinnedBuffers host shared (packBuckets (updateParameters loaded namedTensors)) := by
  unfold normalPinMemory pinnedBuffers
  rw [hload]
  have hsome : (updateParameters loaded namedTensors).isEmpty = false := by simpa using hne
  exact if_neg (by simp [hsome])

/-- What is known of the buffer of a bucket. -/
structure PinnedAs (host : Host) (shared : List MemoryBuffer) (idx : Nat) (bucket : MemoryBucket)
    (b : MemoryBuffer) : Prop where
  taken : registerPinMemory host shared idx bucket.size = .ok b.buffer
  eq : b = { bucket.unpinned with buffer := b.buffer }

theorem pinnedBuffers_ok {host : Host} {shared : List MemoryBuffer} {buckets : List MemoryBucket}
    {bs : List MemoryBuffer} (h : pinnedBuffers host shared buckets = .ok bs) :
    bs.length = buckets.length ∧ ∀ i b, bs[i]? = some b →
      ∃ bucket, buckets[i]? = some bucket ∧ PinnedAs host shared i bucket b := by
  obtain ⟨hlength, hplaces⟩ := mapM_zipIdx_ok h
  refine ⟨hlength, fun i b hb => ?_⟩
  obtain ⟨bucket, hbucket, hpinned⟩ := hplaces i b hb
  obtain ⟨buffer, hbuffer, hpinned⟩ := bind_eq_ok.mp hpinned
  obtain rfl := Except.ok.inj hpinned
  rw [Nat.zero_add] at hbuffer
  exact ⟨bucket, hbucket, hbuffer, rfl⟩

theorem registerPinMemory_shared {host : Host} {shared : List MemoryBuffer} {idx size : Nat}
    {old : MemoryBuffer} (hold : shared[idx]? = some old) (hsize : old.size = size)
    (hnbytes : old.buffer.nbytes = size) :
    registerPinMemory host shared idx size = .ok old.buffer := by
  have hne : shared.isEmpty = false := by
    cases shared with
    | nil => simp at hold
    | cons => rfl
  simp [registerPinMemory, hne, hold, hsize, hnbytes]

/-- Without a shared pool every bucket gets a new buffer of its size. -/
theorem exists_pinnedBuffers_new (host : Host) (buckets : List MemoryBucket) :
    ∃ bs, pinnedBuffers host [] buckets = .ok bs ∧ ∀ b ∈ bs, b.buffer.nbytes = b.size := by
  obtain ⟨bs, hbs⟩ : ∃ bs, pinnedBuffers host [] buckets = .ok bs :=
    exists_mapM_zipIdx fun i bucket _ => ⟨_, rfl⟩
  refine ⟨bs, hbs, fun b hb => ?_⟩
  obtain ⟨i, hi⟩ := List.mem_iff_getElem?.mp hb
  obtain ⟨bucket, -, htaken, heq⟩ := (pinnedBuffers_ok hbs).2 i b hi
  rw [← Except.ok.inj htaken, heq]
  rfl

/-- Where buffers are provided, every bucket gets one of its size, and no two overlap. -/
theorem Provides.exists_pinnedBuffers {host : Host} {shared : List MemoryBuffer}
    {buckets : List MemoryBucket} (h : Provides host shared buckets) :
    ∃ bs, pinnedBuffers host shared buckets = .ok bs ∧ (∀ b ∈ bs, b.buffer.nbytes = b.size) ∧
      bs.Pairwise fun b b' => b.buffer.region.Apart b'.buffer.region := by
  unfold Provides at h
  split at h
  · next hfresh =>
      subst hfresh
      obtain ⟨bs, hbs, hsizes⟩ := exists_pinnedBuffers_new host buckets
      have hnew : ∀ (i : Nat) (b : MemoryBuffer), bs[i]? = some b →
          ∃ bucket, buckets[i]? = some bucket ∧ b.buffer = ⟨host.allocate i, bucket.size⟩ := by
        intro i b hb
        obtain ⟨bucket, hbucket, htaken, -⟩ := (pinnedBuffers_ok hbs).2 i b hb
        exact ⟨bucket, hbucket, (Except.ok.inj htaken).symm⟩
      refine ⟨bs, hbs, hsizes, pairwise_of_getElem? fun i j b b' hij hb hb' => ?_⟩
      obtain ⟨bucket, hbucket, hbuffer⟩ := hnew i b hb
      obtain ⟨bucket', hbucket', hbuffer'⟩ := hnew j b' hb'
      rw [hbuffer, hbuffer']
      exact h i j bucket bucket' hij hbucket hbucket'
  · obtain ⟨hsame, hapart⟩ := h
    obtain ⟨bs, hbs⟩ : ∃ bs, pinnedBuffers host shared buckets = .ok bs := by
      refine exists_mapM_zipIdx fun i bucket hbucket => ?_
      obtain ⟨old, hold, hsize, hnbytes⟩ := hsame i bucket hbucket
      have htaken : registerPinMemory host shared i bucket.size = .ok old.buffer :=
        registerPinMemory_shared hold hsize hnbytes
      rw [Nat.zero_add]
      exact ⟨_, bind_eq_ok.mpr ⟨old.buffer, htaken, rfl⟩⟩
    obtain ⟨-, hplaces⟩ := pinnedBuffers_ok hbs
    have hold : ∀ (i : Nat) (b : MemoryBuffer), bs[i]? = some b →
        ∃ old, shared[i]? = some old ∧ b.buffer = old.buffer ∧ b.buffer.nbytes = b.size := by
      intro i b hb
      obtain ⟨bucket, hbucket, htaken, heq⟩ := hplaces i b hb
      obtain ⟨old, hold, hsize, hnbytes⟩ := hsame i bucket hbucket
      rw [registerPinMemory_shared hold hsize hnbytes] at htaken
      have hbuffer := Except.ok.inj htaken
      refine ⟨old, hold, hbuffer.symm, ?_⟩
      rw [← hbuffer, hnbytes, heq]
      rfl
    refine ⟨bs, hbs, fun b hb => ?_, pairwise_of_getElem? fun i j b b' hij hb hb' => ?_⟩
    · obtain ⟨i, hi⟩ := List.mem_iff_getElem?.mp hb
      exact (hold i b hi).choose_spec.2.2
    · obtain ⟨old, hi, hbuffer, -⟩ := hold i b hb
      obtain ⟨old', hj, hbuffer', -⟩ := hold j b' hb'
      rw [hbuffer, hbuffer']
      exact pairwise_getElem? hapart hij hi hj

/-! ## The copies -/

/-- The copies into a buffer. -/
def copiesInto (parameters : List LoadedTensor) (b : MemoryBuffer) : List (Write UInt8) :=
  (registerTensorTasks parameters b.buffer.ptr 0 b.metas).1

/-- The copies into the buffer in this place. -/
def copiesAt (parameters : List LoadedTensor) (bs : List MemoryBuffer) (idx : Nat) :
    List (Write UInt8) := ((bs[idx]?).map (copiesInto parameters)).getD []

theorem copiesAt_of_getElem? {parameters : List LoadedTensor} {bs : List MemoryBuffer} {idx : Nat}
    {b : MemoryBuffer} (h : bs[idx]? = some b) :
    copiesAt parameters bs idx = copiesInto parameters b := by
  simp [copiesAt, h]

/-- All copies, buffer by buffer. -/
theorem flatMap_copiesAt (parameters : List LoadedTensor) (bs : List MemoryBuffer) :
    (List.range bs.length).flatMap (copiesAt parameters bs) =
      bs.flatMap (copiesInto parameters) := by
  rw [List.flatMap_def, List.flatMap_def]
  congr 1
  refine List.ext_getElem (by simp) fun i hi _ => ?_
  have hlt : i < bs.length := by simpa using hi
  simp [copiesAt, hlt]

/-- The buffers as they are while those in `futures` have not been taken over. -/
def awaiting (futures : List Nat) (bs : List MemoryBuffer) (idx : Nat) : Option MemoryBuffer :=
  (bs[idx]?).map fun b => if idx ∈ futures then { b with buffer := ⟨0, 0⟩ } else b

/-- Nothing has been raised, the buffers taken over are those returned in the end, and
every copy has been made, is submitted, or comes with a buffer to be taken over. -/
structure PinInv (parameters : List LoadedTensor) (bs : List MemoryBuffer) (memory : Bytes)
    (s : PinState) : Prop where
  raised : s.raised = none
  nodup : s.futures.Nodup
  bound : ∀ idx ∈ s.futures, idx < bs.length
  buffers : ∀ idx, s.memoryBuffers[idx]? = awaiting s.futures bs idx
  copies : ∃ made, s.memory = memory.writeAll made ∧
    (made ++ (s.newFutures ++ s.futures.flatMap (copiesAt parameters bs))).Perm
      (bs.flatMap (copiesInto parameters))

section Run

variable {host : Host} {parameters : List LoadedTensor} {shared bs : List MemoryBuffer}
  {memory : Bytes}

theorem pinInv_start (hne : parameters ≠ [])
    (hbs : pinnedBuffers host shared (packBuckets (parameters.map LoadedTensor.toParameter)) =
      .ok bs) : PinInv parameters bs memory (.start parameters memory) := by
  obtain ⟨hlength, hplaces⟩ := pinnedBuffers_ok hbs
  have hstart : PinState.start parameters memory =
      ⟨(packBuckets (parameters.map LoadedTensor.toParameter)).map MemoryBucket.unpinned,
        List.range (packBuckets (parameters.map LoadedTensor.toParameter)).length, [], none,
        memory⟩ := if_neg (by simpa using hne)
  rw [hstart]
  refine ⟨rfl, List.nodup_range, fun idx hidx => ?_, fun idx => ?_, [], rfl, ?_⟩
  · rw [hlength]
    exact List.mem_range.mp hidx
  · rw [List.getElem?_map, awaiting]
    cases hb : bs[idx]? with
    | none =>
        rw [List.getElem?_eq_none_iff] at hb
        rw [List.getElem?_eq_none (hlength ▸ hb)]
        rfl
    | some b =>
        obtain ⟨bucket, hbucket, -, heq⟩ := hplaces idx b hb
        have hlt := (List.getElem?_eq_some_iff.mp hbucket).1
        rw [hbucket, Option.map_some, Option.map_some, if_pos (List.mem_range.mpr hlt), heq]
        rfl
  · rw [← hlength, flatMap_copiesAt]
    exact .refl _

/-- Taking a buffer over brings the copies into it and raises nothing. -/
theorem takeBuffer_eq {s : PinState} (hnames : (parameters.map fun x => x.name).Nodup)
    (hbs : pinnedBuffers host shared (packBuckets (parameters.map LoadedTensor.toParameter)) =
      .ok bs) {idx : Nat} {bucket : MemoryBucket} {b : MemoryBuffer}
    (hbucket : (packBuckets (parameters.map LoadedTensor.toParameter))[idx]? = some bucket)
    (hb : bs[idx]? = some b) :
    s.takeBuffer host parameters shared idx bucket =
      { s with
        futures := s.futures.erase idx
        memoryBuffers := s.memoryBuffers.modify idx fun x => { x with buffer := b.buffer }
        newFutures := s.newFutures ++ copiesInto parameters b
        raised := none } := by
  obtain ⟨bucket', hbucket', htaken, heq⟩ := (pinnedBuffers_ok hbs).2 idx b hb
  obtain rfl : bucket' = bucket := Option.some.inj (hbucket'.symm.trans hbucket)
  have hmetas : b.metas = bucket'.metas := by rw [heq]; rfl
  have hraised : (registerTensorTasks parameters b.buffer.ptr 0 bucket'.metas).2 = none :=
    (registerTensorTasks_submitted b.buffer.ptr
      (packBuckets_describe hnames (List.mem_of_getElem? hbucket)) 0).1
  unfold PinState.takeBuffer copiesInto
  simp only [htaken, hraised, hmetas]

/-- A buffer is taken over. -/
theorem PinInv.takeBuffer {s : PinState} (h : PinInv parameters bs memory s)
    (hnames : (parameters.map fun x => x.name).Nodup)
    (hbs : pinnedBuffers host shared (packBuckets (parameters.map LoadedTensor.toParameter)) =
      .ok bs) {idx : Nat} (hidx : idx ∈ s.futures) {bucket : MemoryBucket}
    (hbucket : (packBuckets (parameters.map LoadedTensor.toParameter))[idx]? = some bucket) :
    PinInv parameters bs memory (s.takeBuffer host parameters shared idx bucket) := by
  obtain ⟨b, hb⟩ : ∃ b, bs[idx]? = some b := ⟨_, List.getElem?_eq_getElem (h.bound idx hidx)⟩
  rw [takeBuffer_eq hnames hbs hbucket hb]
  have hmem : ∀ j, j ∈ s.futures.erase idx ↔ j ≠ idx ∧ j ∈ s.futures := fun j =>
    h.nodup.mem_erase_iff
  refine ⟨rfl, h.nodup.erase idx, fun j hj => h.bound j ((hmem j).mp hj).2, fun j => ?_, ?_⟩
  · simp only
    by_cases hj : j = idx
    · subst hj
      rw [List.getElem?_modify_eq, h.buffers j, awaiting, awaiting, hb]
      simp [hidx, hmem]
    · rw [List.getElem?_modify_ne _ _ (Ne.symm hj), h.buffers j, awaiting, awaiting]
      simp [hmem, hj]
  · obtain ⟨made, hmemory, hperm⟩ := h.copies
    refine ⟨made, hmemory, List.Perm.trans (List.Perm.append_left made ?_) hperm⟩
    have herase := (List.perm_cons_erase hidx).flatMap_right (copiesAt parameters bs)
    rw [List.flatMap_cons, copiesAt_of_getElem? hb] at herase
    rw [List.append_assoc]
    exact List.Perm.append_left _ herase.symm

/-- A copy is made. -/
theorem PinInv.registerTensor {s : PinState} (h : PinInv parameters bs memory s) {task : Nat}
    {write : Write UInt8} (hwrite : s.newFutures[task]? = some write) :
    PinInv parameters bs memory
      { s with newFutures := s.newFutures.eraseIdx task, memory := s.memory.write write } := by
  obtain ⟨made, hmemory, hperm⟩ := h.copies
  refine ⟨h.raised, h.nodup, h.bound, h.buffers, made ++ [write], ?_, ?_⟩
  · simp only [hmemory, Memory.writeAll, List.foldl_append, List.foldl_cons, List.foldl_nil]
  · refine List.Perm.trans ?_ hperm
    rw [List.append_assoc]
    refine List.Perm.append_left made ?_
    obtain ⟨hlt, rfl⟩ := List.getElem?_eq_some_iff.mp hwrite
    exact List.Perm.append_right _ (List.getElem_cons_eraseIdx_perm hlt)

theorem PinInv.step {s t : PinState} (h : PinInv parameters bs memory s)
    (hnames : (parameters.map fun x => x.name).Nodup)
    (hbs : pinnedBuffers host shared (packBuckets (parameters.map LoadedTensor.toParameter)) =
      .ok bs) {completion : Completion}
    (hstep : s.step host parameters shared completion = some t) :
    PinInv parameters bs memory t := by
  cases completion with
  | registerPinMemory idx =>
      rw [PinState.step, Option.ite_none_right_eq_some] at hstep
      obtain ⟨⟨hidx, -⟩, hstep⟩ := hstep
      obtain ⟨bucket, hbucket, rfl⟩ := Option.map_eq_some_iff.mp hstep
      exact h.takeBuffer hnames hbs hidx hbucket
  | registerTensor task =>
      obtain ⟨write, hwrite, rfl⟩ := Option.map_eq_some_iff.mp hstep
      exact h.registerTensor hwrite

/-- When nothing is left to complete, all buffers have been taken over and all copies
have been made. -/
theorem PinInv.final {s : PinState} (h : PinInv parameters bs memory s)
    (hbs : pinnedBuffers host shared (packBuckets (parameters.map LoadedTensor.toParameter)) =
      .ok bs)
    (hfinal : (pinning host parameters shared memory).Final s) :
    s.memoryBuffers = bs ∧ s.futures = [] ∧ s.newFutures = [] ∧
      ∃ made, s.memory = memory.writeAll made ∧
        made.Perm (bs.flatMap (copiesInto parameters)) := by
  have hfutures : s.futures = [] := by
    refine List.eq_nil_iff_forall_not_mem.mpr fun idx hidx => ?_
    have hstuck := hfinal (.registerPinMemory idx)
    have hlt := h.bound idx hidx
    rw [(pinnedBuffers_ok hbs).1] at hlt
    simp [pinning, PinState.step, hidx, h.raised, List.getElem?_eq_getElem hlt] at hstuck
  have hnew : s.newFutures = [] := by
    cases hcopies : s.newFutures with
    | nil => rfl
    | cons write rest =>
        have hstuck := hfinal (.registerTensor 0)
        simp [pinning, PinState.step, hcopies] at hstuck
  refine ⟨List.ext_getElem? fun idx => ?_, hfutures, hnew, ?_⟩
  · rw [h.buffers idx, awaiting, hfutures]
    simp
  · obtain ⟨made, hmemory, hperm⟩ := h.copies
    rw [hfutures, hnew] at hperm
    exact ⟨made, hmemory, by simpa using hperm⟩

end Run

/-! ## What the buffers hold -/

/-- The room of the metas of a buffer, one after the other. -/
def extents (b : MemoryBuffer) : List Region :=
  b.metas.zipIdx.map fun (param, k) => ⟨b.buffer.ptr + offsetAt b.metas k, param.alignedSize⟩

/-- Every tensor is in the buffers once, in the order of the names and at an aligned place
of its own, and it is read back from there. -/
structure Lossless (parameters : List LoadedTensor) (buffers : List MemoryBuffer)
    (memory : Bytes) : Prop where
  complete : (buffers.flatMap (·.metas)).Perm
    (parameters.map fun x => x.toParameter.packed)
  sorted : ((buffers.flatMap (·.metas)).map (·.name)).Pairwise (· < ·)
  sizes : ∀ b ∈ buffers, b.buffer.nbytes = b.size ∧
    b.size = load ParameterMeta.alignedSize b.metas ∧
    b.size ≤ max (4 <<< 30) (largestRoom (parameters.map LoadedTensor.toParameter))
  aligned : ∀ b ∈ buffers, ∀ k param, b.metas[k]? = some param →
    alignBytes ∣ offsetAt b.metas k ∧ param.nbytes ≤ param.alignedSize ∧
      offsetAt b.metas k + param.alignedSize ≤ b.buffer.nbytes
  apart : (buffers.flatMap extents).Pairwise Region.Apart
  buffersApart : buffers.Pairwise fun b b' => b.buffer.region.Apart b'.buffer.region
  bytes : ∀ b ∈ buffers, ∀ k param, b.metas[k]? = some param →
    ∃ tensor ∈ parameters, tensor.toParameter.packed = param ∧
      memory.read (b.buffer.ptr + offsetAt b.metas k) param.nbytes = tensor.bytes

theorem offsetAt_succ {metas : List ParameterMeta} {k : Nat} {param : ParameterMeta}
    (h : metas[k]? = some param) :
    offsetAt metas (k + 1) = offsetAt metas k + param.alignedSize := by
  rw [offsetAt, List.take_add_one, load_append, h]
  simp [offsetAt]

theorem offsetAt_mono (metas : List ParameterMeta) {k k' : Nat} (h : k ≤ k') :
    offsetAt metas k ≤ offsetAt metas k' := by
  obtain ⟨d, rfl⟩ := Nat.exists_eq_add_of_le h
  rw [offsetAt, offsetAt, List.take_add, load_append]
  exact Nat.le_add_right _ _

theorem offsetAt_le_load (metas : List ParameterMeta) (k : Nat) :
    offsetAt metas k ≤ load ParameterMeta.alignedSize metas := by
  conv_rhs => rw [← List.take_append_drop k metas, load_append]
  exact Nat.le_add_right _ _

theorem extents_apart (b : MemoryBuffer) : (extents b).Pairwise Region.Apart := by
  refine pairwise_of_getElem? fun i j region region' hij hi hj => ?_
  simp only [extents, List.getElem?_map, List.getElem?_zipIdx, Nat.zero_add, Option.map_map,
    Option.map_eq_some_iff, Function.comp_apply] at hi hj
  obtain ⟨param, hparam, rfl⟩ := hi
  obtain ⟨param', _, rfl⟩ := hj
  have hnext := offsetAt_succ hparam
  have hmono := offsetAt_mono b.metas (show i + 1 ≤ j from hij)
  rintro a ⟨⟨-, hlt⟩, ⟨hle, -⟩⟩
  simp only at hlt hle
  omega

theorem extents_inside {b : MemoryBuffer} {region : Region} (h : region ∈ extents b) :
    b.buffer.ptr ≤ region.start ∧
      region.start + region.size ≤
        b.buffer.ptr + load ParameterMeta.alignedSize b.metas := by
  obtain ⟨⟨param, k⟩, hmem, rfl⟩ := List.mem_map.mp h
  have hparam : b.metas[k]? = some param := List.mem_zipIdx_iff_getElem?.mp hmem
  have hnext := offsetAt_succ hparam
  have hle := offsetAt_le_load b.metas (k + 1)
  show b.buffer.ptr ≤ b.buffer.ptr + offsetAt b.metas k ∧
    b.buffer.ptr + offsetAt b.metas k + param.alignedSize ≤ _
  omega

/-- Regions inside regions that are apart. -/
theorem apart_of_inside {r r' outer outer' : Region} (h : outer.Apart outer')
    (hr : outer.start ≤ r.start ∧ r.start + r.size ≤ outer.start + outer.size)
    (hr' : outer'.start ≤ r'.start ∧ r'.start + r'.size ≤ outer'.start + outer'.size) :
    r.Apart r' := by
  rintro a ⟨⟨hle, hlt⟩, ⟨hle', hlt'⟩⟩
  exact h a ⟨⟨by omega, by omega⟩, ⟨by omega, by omega⟩⟩

section Result

variable {host : Host} {parameters : List LoadedTensor} {shared bs : List MemoryBuffer}
  {memory : Bytes}

/-- What holds of each buffer that is returned. -/
theorem pinnedBuffers_mem
    (hbs : pinnedBuffers host shared (packBuckets (parameters.map LoadedTensor.toParameter)) =
      .ok bs) {b : MemoryBuffer} (h : b ∈ bs) :
    ∃ bucket ∈ packBuckets (parameters.map LoadedTensor.toParameter),
      b.size = bucket.size ∧ b.metas = bucket.metas := by
  obtain ⟨i, hi⟩ := List.mem_iff_getElem?.mp h
  obtain ⟨bucket, hbucket, -, heq⟩ := (pinnedBuffers_ok hbs).2 i b hi
  exact ⟨bucket, List.mem_of_getElem? hbucket, by rw [heq]; rfl, by rw [heq]; rfl⟩

theorem pinnedBuffers_metas
    (hbs : pinnedBuffers host shared (packBuckets (parameters.map LoadedTensor.toParameter)) =
      .ok bs) :
    bs.map (·.metas) =
      (packBuckets (parameters.map LoadedTensor.toParameter)).map (·.metas) := by
  obtain ⟨hlength, hplaces⟩ := pinnedBuffers_ok hbs
  refine List.ext_getElem (by simp [hlength]) fun i hi _ => ?_
  have hlt : i < bs.length := by simpa using hi
  obtain ⟨bucket, hbucket, -, heq⟩ := hplaces i bs[i] (List.getElem?_eq_getElem hlt)
  obtain ⟨hlt', rfl⟩ := List.getElem?_eq_some_iff.mp hbucket
  rw [List.getElem_map, List.getElem_map, heq]
  rfl

/-- Each buffer has room for the tensors its metas describe, and for no more. -/
theorem pinnedBuffers_describe (hnames : (parameters.map fun x => x.name).Nodup)
    (hbs : pinnedBuffers host shared (packBuckets (parameters.map LoadedTensor.toParameter)) =
      .ok bs) {b : MemoryBuffer} (h : b ∈ bs) :
    Describe parameters b.metas ∧ b.size = load ParameterMeta.alignedSize b.metas ∧
      b.size ≤ packedBucketSize (parameters.map LoadedTensor.toParameter) := by
  obtain ⟨bucket, hbucket, hsize, hmetas⟩ := pinnedBuffers_mem hbs h
  rw [hsize, hmetas]
  exact ⟨packBuckets_describe hnames hbucket, packBuckets_size hbucket⟩

theorem copies_apart (hnames : (parameters.map fun x => x.name).Nodup)
    (hbs : pinnedBuffers host shared (packBuckets (parameters.map LoadedTensor.toParameter)) =
      .ok bs) (hsizes : ∀ b ∈ bs, b.buffer.nbytes = b.size)
    (hapart : bs.Pairwise fun b b' => b.buffer.region.Apart b'.buffer.region) :
    (bs.flatMap (copiesInto parameters)).Pairwise Write.Apart := by
  have hsubmitted : ∀ b ∈ bs, Submitted b.buffer.ptr 0 b.metas parameters
      (copiesInto parameters b) ∧ b.buffer.nbytes = load ParameterMeta.alignedSize b.metas := by
    intro b hb
    obtain ⟨hdescribe, hload, -⟩ := pinnedBuffers_describe hnames hbs hb
    exact ⟨(registerTensorTasks_submitted b.buffer.ptr hdescribe 0).2,
      (hsizes b hb).trans hload⟩
  refine List.pairwise_flatMap.mpr ⟨fun b hb => (hsubmitted b hb).1.apart, ?_⟩
  refine hapart.imp_of_mem fun {b b'} hb hb' hregions w hw w' hw' => ?_
  obtain ⟨hin, hsize⟩ := hsubmitted b hb
  obtain ⟨hin', hsize'⟩ := hsubmitted b' hb'
  refine apart_of_inside hregions ?_ ?_
  · simpa [Tensor.region, Write.region, hsize] using hin.inside w hw
  · simpa [Tensor.region, Write.region, hsize'] using hin'.inside w' hw'

theorem dvd_load {metas : List ParameterMeta}
    (h : ∀ param ∈ metas, alignBytes ∣ param.alignedSize) :
    alignBytes ∣ load ParameterMeta.alignedSize metas := by
  induction metas with
  | nil => exact Nat.dvd_zero _
  | cons param rest ih =>
      obtain ⟨hparam, hrest⟩ := List.forall_mem_cons.mp h
      rw [load_cons]
      exact Nat.dvd_add hparam (ih hrest)

/-- The memory after all copies, in whatever order, holds every tensor. -/
theorem lossless (hnames : (parameters.map fun x => x.name).Nodup)
    (hbs : pinnedBuffers host shared (packBuckets (parameters.map LoadedTensor.toParameter)) =
      .ok bs) (hsizes : ∀ b ∈ bs, b.buffer.nbytes = b.size)
    (hapart : bs.Pairwise fun b b' => b.buffer.region.Apart b'.buffer.region) :
    Lossless parameters bs (memory.writeAll (bs.flatMap (copiesInto parameters))) := by
  have hcopies := copies_apart hnames hbs hsizes hapart
  have hmetas : bs.flatMap (·.metas) =
      (sortParameters (parameters.map LoadedTensor.toParameter)).map Parameter.packed := by
    rw [List.flatMap_def, pinnedBuffers_metas hbs, ← List.flatMap_def, packBuckets_metas]
  have hdescribe : ∀ b ∈ bs, Describe parameters b.metas := fun b hb =>
    (pinnedBuffers_describe hnames hbs hb).1
  have hload : ∀ b ∈ bs, b.size = load ParameterMeta.alignedSize b.metas ∧
      b.size ≤ packedBucketSize (parameters.map LoadedTensor.toParameter) := fun b hb =>
    (pinnedBuffers_describe hnames hbs hb).2
  constructor
  case complete =>
    rw [hmetas]
    exact ((sortParameters_perm _).map _).trans (by rw [List.map_map]; rfl)
  case sorted =>
    rw [hmetas, List.map_map]
    exact sortParameters_names (by rw [List.map_map]; exact hnames)
  case sizes => exact fun b hb => ⟨hsizes b hb, hload b hb⟩
  case aligned =>
    intro b hb k param hparam
    have hpacked : ∀ other ∈ b.metas, alignBytes ∣ other.alignedSize ∧
        other.nbytes ≤ other.alignedSize := by
      intro other hother
      obtain ⟨tensor, -, rfl⟩ := hdescribe b hb other hother
      exact ⟨dvd_room tensor.toParameter, nbytes_le_room tensor.toParameter⟩
    refine ⟨dvd_load fun other hother => (hpacked other (List.mem_of_mem_take hother)).1,
      (hpacked param (List.mem_of_getElem? hparam)).2, ?_⟩
    rw [hsizes b hb, (hload b hb).1, ← offsetAt_succ hparam]
    exact offsetAt_le_load _ _
  case apart =>
    refine List.pairwise_flatMap.mpr ⟨fun b _ => extents_apart b, ?_⟩
    refine hapart.imp_of_mem fun {b b'} hb hb' hregions r hr r' hr' => ?_
    refine apart_of_inside hregions ?_ ?_
    · simpa [Tensor.region, hsizes b hb, (hload b hb).1] using extents_inside hr
    · simpa [Tensor.region, hsizes b' hb', (hload b' hb').1] using extents_inside hr'
  case buffersApart => exact hapart
  case bytes =>
    intro b hb k param hparam
    have hsubmitted := (registerTensorTasks_submitted b.buffer.ptr (hdescribe b hb) 0).2
    obtain ⟨tensor, htensor, hpacked, hmem⟩ := hsubmitted.placed k param hparam
    refine ⟨tensor, htensor, hpacked, ?_⟩
    have hwritten : (⟨b.buffer.ptr + (0 + offsetAt b.metas k), tensor.bytes⟩ : Write UInt8) ∈
        bs.flatMap (copiesInto parameters) := List.mem_flatMap.mpr ⟨b, hb, hmem⟩
    have hread := Memory.read_writeAll (m := memory) hcopies hwritten
    have hnbytes : param.nbytes = tensor.bytes.length := by
      rw [tensor.length_bytes, ← hpacked]
      rfl
    rw [hnbytes]
    simpa using hread

end Result

/-! ## Every run -/

section Main

variable {host : Host} {parameters : List LoadedTensor} {shared bs : List MemoryBuffer}
  {memory : Bytes}

theorem pinInv (hne : parameters ≠ []) (hnames : (parameters.map fun x => x.name).Nodup)
    (hbs : pinnedBuffers host shared (packBuckets (parameters.map LoadedTensor.toParameter)) =
      .ok bs) {s : PinState} (h : (pinning host parameters shared memory).Reachable s) :
    PinInv parameters bs memory s :=
  h.invariant (pinInv_start hne hbs) fun _ _ _ _ hinv hstep => hinv.step hnames hbs hstep

theorem copiesInto_length (hnames : (parameters.map fun x => x.name).Nodup)
    (hbs : pinnedBuffers host shared (packBuckets (parameters.map LoadedTensor.toParameter)) =
      .ok bs) {b : MemoryBuffer} (hb : b ∈ bs) :
    (copiesInto parameters b).length ≤ parameters.length := by
  obtain ⟨bucket, hbucket, -, hmetas⟩ := pinnedBuffers_mem hbs hb
  have hdescribe : Describe parameters b.metas := hmetas ▸ packBuckets_describe hnames hbucket
  have hall := congrArg List.length
    (packBuckets_metas (parameters.map LoadedTensor.toParameter))
  rw [List.length_map, (sortParameters_perm _).length_eq, List.length_map, List.flatMap_def] at hall
  calc (copiesInto parameters b).length
      = bucket.metas.length := by
        rw [← hmetas]
        exact (registerTensorTasks_submitted b.buffer.ptr hdescribe 0).2.length
    _ ≤ ((packBuckets (parameters.map LoadedTensor.toParameter)).map (·.metas)).flatten.length :=
        (List.sublist_flatten_of_mem (List.mem_map_of_mem hbucket)).length_le
    _ = parameters.length := hall

/-- The steps left: every buffer to be taken over, with room for its copies, and the
copies. -/
def stepsLeft (parameters : List LoadedTensor) (s : PinState) : Nat :=
  s.futures.length * (parameters.length + 1) + s.newFutures.length

theorem pinning_descends (hne : parameters ≠ []) (hnames : (parameters.map fun x => x.name).Nodup)
    (hbs : pinnedBuffers host shared (packBuckets (parameters.map LoadedTensor.toParameter)) =
      .ok bs) :
    (pinning host parameters shared memory).Descends (stepsLeft parameters) := by
  intro s completion t hs hstep
  have hinv := pinInv hne hnames hbs hs
  cases completion with
  | registerPinMemory idx =>
      obtain ⟨⟨hidx, -⟩, hstep⟩ := Option.ite_none_right_eq_some.mp hstep
      obtain ⟨bucket, hbucket, rfl⟩ := Option.map_eq_some_iff.mp hstep
      obtain ⟨b, hb⟩ : ∃ b, bs[idx]? = some b :=
        ⟨_, List.getElem?_eq_getElem (hinv.bound idx hidx)⟩
      rw [takeBuffer_eq hnames hbs hbucket hb]
      have hcopies := copiesInto_length hnames hbs (List.mem_of_getElem? hb)
      have herase := List.length_erase_of_mem hidx
      have hpos := List.length_pos_of_mem hidx
      obtain ⟨m, hm⟩ : ∃ m, s.futures.length = m + 1 := ⟨s.futures.length - 1, by omega⟩
      simp only [stepsLeft, herase, hm, Nat.add_sub_cancel, List.length_append, Nat.succ_mul]
      omega
  | registerTensor task =>
      obtain ⟨write, hwrite, rfl⟩ := Option.map_eq_some_iff.mp hstep
      have hlt := (List.getElem?_eq_some_iff.mp hwrite).1
      simp only [stepsLeft, List.length_eraseIdx_of_lt hlt]
      omega

/-- A run that has come to its end has returned all buffers and made all copies. -/
theorem pinning_final (hne : parameters ≠ []) (hnames : (parameters.map fun x => x.name).Nodup)
    (hbs : pinnedBuffers host shared (packBuckets (parameters.map LoadedTensor.toParameter)) =
      .ok bs) (hsizes : ∀ b ∈ bs, b.buffer.nbytes = b.size)
    (hapart : bs.Pairwise fun b b' => b.buffer.region.Apart b'.buffer.region) {s : PinState}
    (hs : (pinning host parameters shared memory).Reachable s)
    (hfinal : (pinning host parameters shared memory).Final s) :
    s.raised = none ∧ s.futures = [] ∧ s.newFutures = [] ∧ s.memoryBuffers = bs ∧
      s.memory = memory.writeAll (bs.flatMap (copiesInto parameters)) := by
  have hinv := pinInv hne hnames hbs hs
  obtain ⟨hbuffers, hfutures, hnew, made, hmemory, hperm⟩ := hinv.final hbs hfinal
  refine ⟨hinv.raised, hfutures, hnew, hbuffers, ?_⟩
  have hmade := hperm.symm.pairwise (copies_apart hnames hbs hsizes hapart)
    fun {w w'} hapart => Region.Apart.symm hapart
  rw [hmemory]
  exact Memory.writeAll_perm hperm hmade

/-- Packing non-empty parameters with distinct names, in new buffers or a matching shared
pool: every run of allocations and copies ends, and whatever the order, nothing is raised,
the same buffers are returned, and the memory is the same and holds every tensor. -/
theorem normalPinMemory_lossless (hne : parameters ≠ [])
    (hnames : (parameters.map fun x => x.name).Nodup)
    (hprovides : Provides host shared (packBuckets (parameters.map LoadedTensor.toParameter))) :
    (∀ run : Nat → PinState, (pinning host parameters shared memory).Reachable (run 0) →
        ¬ ∀ n, (pinning host parameters shared memory).Next (run n) (run (n + 1))) ∧
      (∀ s, (pinning host parameters shared memory).Reachable s →
        ∃ t, (pinning host parameters shared memory).Steps s t ∧
          (pinning host parameters shared memory).Final t) ∧
      ∃ buffers left,
        pinnedBuffers host shared (packBuckets (parameters.map LoadedTensor.toParameter)) =
          .ok buffers ∧
        Lossless parameters buffers left ∧
        ∀ s, (pinning host parameters shared memory).Reachable s →
          (pinning host parameters shared memory).Final s →
            s.raised = none ∧ s.futures = [] ∧ s.newFutures = [] ∧
              s.memoryBuffers = buffers ∧ s.memory = left := by
  obtain ⟨bs, hbs, hsizes, hapart⟩ := hprovides.exists_pinnedBuffers
  have hdescends := @pinning_descends host parameters shared bs memory hne hnames hbs
  refine ⟨hdescends.no_infinite_run, fun s hs => hdescends.exists_final hs, bs,
    memory.writeAll (bs.flatMap (copiesInto parameters)), hbs,
    lossless hnames hbs hsizes hapart, fun s hs hfinal => ?_⟩
  exact pinning_final hne hnames hbs hsizes hapart hs hfinal

end Main

/-- A host that allocates buffers a gigabyte apart. -/
def spaciousHost : Host where
  loadCheckpoint _ := .ok []
  safetensors filePath := .error (.keyError filePath)
  allocate k := k <<< 30
  pinRaises _ := none

/-- A tensor of one element, and one of none. -/
def twoTensors : List LoadedTensor :=
  [⟨⟨"weight", .float32, [1]⟩, [1, 2, 3, 4], rfl⟩, ⟨⟨"bias", .bfloat16, [0, 3]⟩, [], rfl⟩]

/-- A shared pool with the buffer for them. -/
def onePool : List MemoryBuffer := [⟨⟨4096, 256⟩, 256, [], false⟩]

theorem packBuckets_twoTensors : packBuckets (twoTensors.map LoadedTensor.toParameter) =
    [⟨256, [⟨"bias", .bfloat16, [0, 3], 0⟩, ⟨"weight", .float32, [1], 256⟩]⟩] := by
  decide

/-- In a new buffer, and in that of the shared pool. -/
theorem normalPinMemory_lossless_twoTensors :
    (∃ buffers left, Lossless twoTensors buffers left ∧
      ∀ s, (pinning spaciousHost twoTensors [] fun _ => 0).Reachable s →
        (pinning spaciousHost twoTensors [] fun _ => 0).Final s →
          s.memoryBuffers = buffers ∧ s.memory = left) ∧
      ∃ buffers left, Lossless twoTensors buffers left ∧
        ∀ s, (pinning spaciousHost twoTensors onePool fun _ => 0).Reachable s →
          (pinning spaciousHost twoTensors onePool fun _ => 0).Final s →
            s.memoryBuffers = buffers ∧ s.memory = left := by
  refine ⟨?fresh, ?shared⟩
  case fresh =>
    obtain ⟨-, -, buffers, left, -, hlossless, hfinal⟩ :=
      @normalPinMemory_lossless spaciousHost twoTensors [] (fun _ => 0) (by decide) (by decide) (by
        rw [packBuckets_twoTensors, Provides, if_pos rfl]
        intro i j bucket bucket' hij _ hj
        obtain ⟨hlt, -⟩ := List.getElem?_eq_some_iff.mp hj
        simp only [List.length_cons, List.length_nil] at hlt
        omega)
    refine ⟨buffers, left, hlossless, fun s hs hstuck => ?_⟩
    obtain ⟨-, -, -, hbuffers, hmemory⟩ := hfinal s hs hstuck
    exact ⟨hbuffers, hmemory⟩
  case shared =>
    obtain ⟨-, -, buffers, left, -, hlossless, hfinal⟩ :=
      @normalPinMemory_lossless spaciousHost twoTensors onePool (fun _ => 0) (by decide)
        (by decide) (by
          rw [packBuckets_twoTensors, Provides, if_neg (by decide)]
          refine ⟨fun i bucket hbucket => ?_, List.pairwise_singleton _ _⟩
          obtain ⟨hlt, rfl⟩ := List.getElem?_eq_some_iff.mp hbucket
          obtain rfl : i = 0 := by simpa using hlt
          exact ⟨_, rfl, rfl, rfl⟩)
    refine ⟨buffers, left, hlossless, fun s hs hstuck => ?_⟩
    obtain ⟨-, -, -, hbuffers, hmemory⟩ := hfinal s hs hstuck
    exact ⟨hbuffers, hmemory⟩

end CheckpointEngine.Registry
