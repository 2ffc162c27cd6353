/-
  `Registry.Packing`: what `_normal_pin_memory` puts where, with the bytes of the tensors.

  The packing loop is next-fit over the tensors in the order of their names, so the
  buckets hold every tensor once.  The copies of a bucket then go to the running offsets
  of its metas: they stay inside the bucket and have no address in common.
-/
import CheckpointEngine.Registry.Pinning
import CheckpointEngine.Foundation.NextFit

set_option autoImplicit false

namespace CheckpointEngine.Registry

open CheckpointEngine.Foundation

/-! ## Packing -/

/-- The `ParameterMeta` of a tensor that is packed. -/
def Parameter.packed (param : Parameter) : ParameterMeta :=
  ⟨param.name, param.dtype, param.shape, alignSize param.dtype param.shape⟩

/-- The room a tensor takes in its bucket. -/
def Parameter.room (param : Parameter) : Nat := alignSize param.dtype param.shape

/-- `max(_align_size(x.dtype, x.shape) for x in parameters.values())`. -/
def largestRoom (parameters : List Parameter) : Nat :=
  (parameters.map fun x => alignSize x.dtype x.shape).foldl max 0

/-- `bucket_size`. -/
def packedBucketSize (parameters : List Parameter) : Nat := max (4 <<< 30) (largestRoom parameters)

/-- `sorted(parameters.items())`. -/
def sortParameters (parameters : List Parameter) : List Parameter :=
  parameters.insertionSort fun x y => x.name ≤ y.name

/-- A bucket with these tensors. -/
def bucketOf (params : List Parameter) : MemoryBucket :=
  ⟨load Parameter.room params, params.map Parameter.packed⟩

theorem packStep_bucketOf (bucketSize : Nat) (p : Packing Parameter) (param : Parameter) :
    packStep bucketSize (p.closed.map bucketOf, bucketOf p.openBin) param =
      ((p.place bucketSize Parameter.room param).closed.map bucketOf,
        bucketOf (p.place bucketSize Parameter.room param).openBin) := by
  unfold packStep Packing.place
  change (let buckets := if load Parameter.room p.openBin + param.room > bucketSize then
    (p.closed.map bucketOf ++ [bucketOf p.openBin], ⟨0, []⟩)
    else (p.closed.map bucketOf, bucketOf p.openBin)
    (buckets.1, (⟨buckets.2.size + param.room, buckets.2.metas ++ [param.packed]⟩ :
      MemoryBucket))) = _
  split
  · simp [bucketOf]
  · simp [bucketOf]

/-- The packing loop is next-fit. -/
theorem packBuckets_eq (parameters : List Parameter) :
    packBuckets parameters =
      (nextFit (packedBucketSize parameters) Parameter.room (sortParameters parameters)).map
        bucketOf := by
  have hfold : ∀ (xs : List Parameter) (p : Packing Parameter),
      xs.foldl (packStep (packedBucketSize parameters))
          (p.closed.map bucketOf, bucketOf p.openBin) =
        ((xs.foldl (Packing.place (packedBucketSize parameters) Parameter.room) p).closed.map
            bucketOf,
          bucketOf (xs.foldl (Packing.place (packedBucketSize parameters) Parameter.room)
            p).openBin) := by
    intro xs
    induction xs with
    | nil => intro p; rfl
    | cons x xs ih =>
        intro p
        rw [List.foldl_cons, List.foldl_cons, packStep_bucketOf, ih]
  have hstart : (sortParameters parameters).foldl (packStep (packedBucketSize parameters))
      (([], ⟨0, []⟩) : List MemoryBucket × MemoryBucket) =
        ((packing (packedBucketSize parameters) Parameter.room
            (sortParameters parameters)).closed.map bucketOf,
          bucketOf (packing (packedBucketSize parameters) Parameter.room
            (sortParameters parameters)).openBin) := hfold _ Packing.empty
  have hpacked : (packBuckets parameters : List MemoryBucket) =
      ((sortParameters parameters).foldl (packStep (packedBucketSize parameters))
          (([], ⟨0, []⟩) : List MemoryBucket × MemoryBucket)).1 ++
        [((sortParameters parameters).foldl (packStep (packedBucketSize parameters))
          (([], ⟨0, []⟩) : List MemoryBucket × MemoryBucket)).2] := rfl
  rw [hpacked, hstart]
  simp [nextFit, Packing.bins]

/-- What holds of the empty bucket and stays as tensors are added holds of every bucket. -/
theorem packBuckets_forall {Size : Type} [NatCast Size] {P : MemoryBucket Size → Prop}
    (hempty : P ⟨0, []⟩)
    (hadd : ∀ (bucket : MemoryBucket Size) (param : Parameter), P bucket →
      P ⟨bucket.size + param.room,
        bucket.metas ++ [⟨param.name, param.dtype, param.shape, param.room⟩]⟩)
    (parameters : List Parameter) :
    ∀ bucket ∈ (packBuckets parameters : List (MemoryBucket Size)), P bucket := by
  have hfold : ∀ (xs : List Parameter) (bucketSize : Nat)
      (buckets : List (MemoryBucket Size) × MemoryBucket Size),
      (∀ bucket ∈ buckets.1 ++ [buckets.2], P bucket) →
        ∀ bucket ∈ (xs.foldl (packStep bucketSize) buckets).1 ++
          [(xs.foldl (packStep bucketSize) buckets).2], P bucket := by
    intro xs bucketSize
    induction xs with
    | nil => intro buckets h; exact h
    | cons param rest ih =>
        intro buckets h
        refine ih _ fun bucket hbucket => ?_
        have hlast := h buckets.2 (List.mem_append_right _ (List.mem_singleton_self _))
        unfold packStep at hbucket
        simp only at hbucket
        split at hbucket
        · rcases List.mem_append.mp hbucket with hclosed | hopen
          · exact h bucket hclosed
          · obtain rfl := List.mem_singleton.mp hopen
            exact hadd _ param hempty
        · rcases List.mem_append.mp hbucket with hclosed | hopen
          · exact h bucket (List.mem_append_left _ hclosed)
          · obtain rfl := List.mem_singleton.mp hopen
            exact hadd _ param hlast
  intro bucket hbucket
  refine hfold _ _ ([], ⟨0, []⟩) (fun first hfirst => ?_) bucket hbucket
  obtain rfl := List.mem_singleton.mp hfirst
  exact hempty

theorem le_foldl_max (xs : List Nat) : ∀ start, start ≤ xs.foldl max start ∧
    ∀ x ∈ xs, x ≤ xs.foldl max start := by
  induction xs with
  | nil => simp
  | cons y ys ih =>
      intro start
      obtain ⟨hstart, hrest⟩ := ih (max start y)
      refine ⟨by rw [List.foldl_cons]; omega, fun x hx => ?_⟩
      rcases List.mem_cons.mp hx with rfl | hmem
      · rw [List.foldl_cons]
        omega
      · exact hrest x hmem

theorem room_le {parameters : List Parameter} {param : Parameter} (h : param ∈ parameters) :
    param.room ≤ packedBucketSize parameters := by
  have hle := (le_foldl_max (parameters.map fun x => alignSize x.dtype x.shape) 0).2 _
    (List.mem_map_of_mem h)
  exact Nat.le_trans hle (Nat.le_max_right _ _)

theorem dvd_room (param : Parameter) : alignBytes ∣ param.room := Nat.dvd_mul_left _ _

theorem nbytes_le_room (param : Parameter) : param.packed.nbytes ≤ param.room := by
  show param.dtype.itemsize * numel param.shape ≤
    (param.dtype.itemsize * numel param.shape + 256 - 1) / 256 * 256
  omega

theorem sortParameters_perm (parameters : List Parameter) :
    (sortParameters parameters).Perm parameters := List.perm_insertionSort _ _

/-- The names in order, where no name occurs twice. -/
theorem sortParameters_names {parameters : List Parameter}
    (h : (parameters.map (·.name)).Nodup) :
    ((sortParameters parameters).map (·.name)).Pairwise (· < ·) := by
  have htotal : Std.Total fun x y : Parameter => x.name ≤ y.name :=
    ⟨fun x y => String.le_total x.name y.name⟩
  have htrans : IsTrans Parameter fun x y => x.name ≤ y.name :=
    ⟨fun x y z => String.le_trans⟩
  have hsorted : ((sortParameters parameters).map (·.name)).Pairwise (· ≤ ·) :=
    List.pairwise_map.mpr (List.pairwise_insertionSort _ parameters)
  have hnodup : ((sortParameters parameters).map (·.name)).Nodup :=
    ((sortParameters_perm parameters).map _).nodup_iff.mpr h
  refine (hsorted.and hnodup).imp fun {name name'} hboth => ?_
  obtain ⟨hle, hne⟩ := hboth
  by_contra hnot
  exact hne (String.le_antisymm hle (String.not_lt.mp hnot))

/-- The buckets hold the tensors once each, in the order of their names. -/
theorem packBuckets_metas (parameters : List Parameter) :
    (packBuckets parameters).flatMap (·.metas) =
      (sortParameters parameters).map Parameter.packed := by
  rw [packBuckets_eq, List.flatMap_map]
  calc (nextFit (packedBucketSize parameters) Parameter.room (sortParameters parameters)).flatMap
        (fun bin => bin.map Parameter.packed)
      = (nextFit (packedBucketSize parameters) Parameter.room
          (sortParameters parameters)).flatten.map Parameter.packed := by
        rw [List.map_flatten, List.flatMap_def]
    _ = (sortParameters parameters).map Parameter.packed := by rw [nextFit_flatten]

/-- A bucket is as large as its tensors together, and no larger than allowed. -/
theorem packBuckets_size {parameters : List Parameter} {bucket : MemoryBucket}
    (h : bucket ∈ packBuckets parameters) :
    bucket.size = load ParameterMeta.alignedSize bucket.metas ∧
      bucket.size ≤ packedBucketSize parameters := by
  rw [packBuckets_eq] at h
  obtain ⟨bin, hbin, rfl⟩ := List.mem_map.mp h
  refine ⟨(load_map ParameterMeta.alignedSize Parameter.packed bin).symm, ?_⟩
  refine nextFit_load_le (fun x hx => ?_) bin hbin
  exact room_le ((sortParameters_perm parameters).mem_iff.mp hx)

/-! ## Copying -/

/-- A contiguous tensor of a checkpoint, with its bytes. -/
structure LoadedTensor extends Parameter where
  bytes : List UInt8
  length_bytes : bytes.length = dtype.itemsize * numel shape
  deriving DecidableEq, Repr

/-- `parameters[name]`. -/
def tensorNamed (parameters : List LoadedTensor) (name : String) : Option LoadedTensor :=
  parameters.find? fun x => x.name = name

/-- The `register_tensor` tasks submitted for the metas of a bucket from `offset` on, and
what ends the loop early. -/
def registerTensorTasks (parameters : List LoadedTensor) (ptr : Nat) :
    Nat → List ParameterMeta → List (Write UInt8) × Option PyError
  | _, [] => ([], none)
  | offset, param :: rest =>
      match tensorNamed parameters param.name with
      | none => ([], some (.keyError param.name))
      | some tensor =>
          let size := alignSize tensor.dtype tensor.shape
          if size ≠ alignSize param.dtype param.shape then
            ([], some (.assertionError (s!"tensor {param.name} size {size} should be equal to " ++
              s!"meta size {alignSize param.dtype param.shape}")))
          else
            let (tasks, raised) := registerTensorTasks parameters ptr (offset + size) rest
            (⟨ptr + offset, tensor.bytes⟩ :: tasks, raised)

/-- The running offset of the `k`-th meta of a buffer. -/
def offsetAt (metas : List ParameterMeta) (k : Nat) : Nat :=
  load ParameterMeta.alignedSize (metas.take k)

/-- The metas describe tensors of the checkpoint. -/
def Describe (parameters : List LoadedTensor) (metas : List ParameterMeta) : Prop :=
  ∀ param ∈ metas, ∃ tensor, tensorNamed parameters param.name = some tensor ∧
    tensor.toParameter.packed = param

theorem registerTensorTasks_cons {parameters : List LoadedTensor} {ptr offset : Nat}
    {tensor : LoadedTensor} {rest : List ParameterMeta}
    (h : tensorNamed parameters tensor.name = some tensor) :
    registerTensorTasks parameters ptr offset (tensor.toParameter.packed :: rest) =
      (⟨ptr + offset, tensor.bytes⟩ ::
          (registerTensorTasks parameters ptr (offset + tensor.toParameter.room) rest).1,
        (registerTensorTasks parameters ptr (offset + tensor.toParameter.room) rest).2) := by
  rw [registerTensorTasks, show tensor.toParameter.packed.name = tensor.name from rfl, h]
  exact if_neg fun hne => hne rfl

/-- The tasks for metas that describe tensors: all of them are submitted, each goes to
the running offset of its meta, and they stay apart and inside the room of the metas. -/
structure Submitted (ptr offset : Nat) (metas : List ParameterMeta)
    (parameters : List LoadedTensor) (tasks : List (Write UInt8)) : Prop where
  length : tasks.length = metas.length
  placed : ∀ k param, metas[k]? = some param → ∃ tensor ∈ parameters,
    tensor.toParameter.packed = param ∧
      ⟨ptr + (offset + offsetAt metas k), tensor.bytes⟩ ∈ tasks
  inside : ∀ task ∈ tasks, ptr + offset ≤ task.start ∧
    task.start + task.bytes.length ≤ ptr + (offset + load ParameterMeta.alignedSize metas)
  apart : tasks.Pairwise Write.Apart

theorem apart_of_le {w w' : Write UInt8} (h : w.start + w.bytes.length ≤ w'.start) :
    w.Apart w' := by
  rintro a ⟨⟨-, hlt⟩, ⟨hle, -⟩⟩
  simp only [Write.region] at hlt hle
  omega

theorem registerTensorTasks_submitted {parameters : List LoadedTensor} (ptr : Nat)
    {metas : List ParameterMeta} (h : Describe parameters metas) (offset : Nat) :
    (registerTensorTasks parameters ptr offset metas).2 = none ∧
      Submitted ptr offset metas parameters
        (registerTensorTasks parameters ptr offset metas).1 := by
  induction metas generalizing offset with
  | nil => exact ⟨rfl, rfl, by simp, by simp [registerTensorTasks], List.Pairwise.nil⟩
  | cons param rest ih =>
      obtain ⟨⟨tensor, hnamed, rfl⟩, hrest⟩ := List.forall_mem_cons.mp h
      obtain ⟨hraised, hih⟩ := ih hrest (offset + tensor.toParameter.room)
      have hbytes : tensor.bytes.length ≤ tensor.toParameter.room := by
        rw [tensor.length_bytes]
        exact nbytes_le_room tensor.toParameter
      have haligned : tensor.toParameter.packed.alignedSize = tensor.toParameter.room := rfl
      rw [registerTensorTasks_cons hnamed]
      refine ⟨hraised, ?_, ?_, ?_, ?_⟩
      · rw [List.length_cons, List.length_cons, hih.length]
      · intro k param hk
        cases k with
        | zero =>
            obtain rfl := Option.some.inj hk
            exact ⟨tensor, List.mem_of_find?_eq_some hnamed, rfl, List.mem_cons_self⟩
        | succ k =>
            obtain ⟨other, hother, hpacked, hmem⟩ := hih.placed k param hk
            refine ⟨other, hother, hpacked, List.mem_cons_of_mem _ ?_⟩
            rw [offsetAt, List.take_succ_cons, load_cons, haligned, ← Nat.add_assoc offset]
            exact hmem
      · intro task htask
        rw [load_cons, haligned]
        rcases List.mem_cons.mp htask with rfl | hmem
        · exact ⟨Nat.le_refl _, by simp only; omega⟩
        · have := hih.inside task hmem
          omega
      · refine List.pairwise_cons.mpr ⟨fun task htask => apart_of_le ?_, hih.apart⟩
        have := (hih.inside task htask).1
        simp only
        omega

/-- A dictionary finds each of its tensors. -/
theorem tensorNamed_of_mem {parameters : List LoadedTensor} {tensor : LoadedTensor}
    (hnames : (parameters.map fun x => x.name).Nodup) (h : tensor ∈ parameters) :
    tensorNamed parameters tensor.name = some tensor := by
  unfold tensorNamed
  induction parameters with
  | nil => simp at h
  | cons first rest ih =>
      obtain ⟨hfirst, hnames⟩ := List.nodup_cons.mp hnames
      rcases List.mem_cons.mp h with rfl | hmem
      · simp
      · have hne : first.name ≠ tensor.name := by
          intro heq
          exact hfirst (List.mem_map.mpr ⟨tensor, hmem, heq.symm⟩)
        rw [List.find?_cons_of_neg (by simpa using hne)]
        exact ih hnames hmem

/-- The metas of the buckets describe the tensors that are packed. -/
theorem packBuckets_describe {parameters : List LoadedTensor}
    (hnames : (parameters.map fun x => x.name).Nodup) {bucket : MemoryBucket}
    (h : bucket ∈ packBuckets (parameters.map LoadedTensor.toParameter)) :
    Describe parameters bucket.metas := by
  intro param hparam
  have hmem : param ∈ (packBuckets (parameters.map LoadedTensor.toParameter)).flatMap (·.metas) :=
    List.mem_flatMap.mpr ⟨bucket, h, hparam⟩
  rw [packBuckets_metas] at hmem
  obtain ⟨x, hx, rfl⟩ := List.mem_map.mp hmem
  obtain ⟨tensor, htensor, rfl⟩ := List.mem_map.mp ((sortParameters_perm _).mem_iff.mp hx)
  exact ⟨tensor, tensorNamed_of_mem hnames htensor, rfl⟩

end CheckpointEngine.Registry
