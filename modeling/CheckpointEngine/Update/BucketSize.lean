/-
  `Update.BucketSize`: how the ranks of an update agree on the bucket size and on the
  number in their socket addresses, `_detect_bucket_size` in `checkpoint_engine/ps.py`.

  One `all_reduce` with the minimum serves both: every rank puts in its free bytes and
  the negative of its address counter, and takes out the smallest of the former and,
  negated again, the largest of the latter.
-/
import CheckpointEngine.Registry.Pinning

set_option autoImplicit false

namespace CheckpointEngine.Update

open CheckpointEngine.Foundation CheckpointEngine.Registry

/-! ## The reduction -/

/-- What a rank that takes part contributes, and the metas it packs. -/
structure Participant where
  /-- free device memory, after the memory fraction -/
  available : Nat
  zmqAddrCounter : Nat
  globalMetas : GlobalMetas

/-- The tensor before the `all_reduce`. -/
def Participant.tensor (p : Participant) : Int × Int := (p.available, -p.zmqAddrCounter)

/-- `all_reduce(tensor, op=MIN)`: element by element the minimum over the group. -/
def allReduceMin (tensors : List (Int × Int)) : Option (Int × Int) := do
  let freeBytes ← (tensors.map Prod.fst).min?
  let counter ← (tensors.map Prod.snd).min?
  return (freeBytes, counter)

/-- The group's result: the smallest number of free bytes and the largest counter. -/
theorem allReduceMin_spec {group : List Participant} {t : Int × Int}
    (h : allReduceMin (group.map Participant.tensor) = some t) :
    (∃ p ∈ group, t.1 = p.available) ∧ (∀ p ∈ group, t.1 ≤ p.available) ∧
      (∃ p ∈ group, -t.2 = p.zmqAddrCounter) ∧ ∀ p ∈ group, (p.zmqAddrCounter : Int) ≤ -t.2 := by
  obtain ⟨freeBytes, hfree, h⟩ := Option.bind_eq_some_iff.mp h
  obtain ⟨counter, hcounter, h⟩ := Option.bind_eq_some_iff.mp h
  obtain rfl := Option.some.inj h
  rw [List.map_map, List.min?_eq_some_iff] at hfree hcounter
  obtain ⟨hfree, hfree_le⟩ := hfree
  obtain ⟨hcounter, hcounter_le⟩ := hcounter
  obtain ⟨p, hp, rfl⟩ := List.mem_map.mp hfree
  obtain ⟨q, hq, rfl⟩ := List.mem_map.mp hcounter
  refine ⟨⟨p, hp, rfl⟩, fun r hr => hfree_le _ (List.mem_map_of_mem hr), ⟨q, hq, ?_⟩, ?_⟩
  · simp [Participant.tensor]
  · intro r hr
    have hle := hcounter_le _ (List.mem_map_of_mem hr)
    simp only [Function.comp_apply, Participant.tensor] at hle ⊢
    omega

theorem allReduceMin_isSome {group : List Participant} (h : group ≠ []) :
    ∃ t, allReduceMin (group.map Participant.tensor) = some t := by
  obtain ⟨p, rest, rfl⟩ := List.exists_cons_of_ne_nil h
  exact ⟨_, rfl⟩

/-! ## The bucket size -/

/-- `max_tensor_bytes`. -/
def maxTensorBytes {Size : Type} [OfNat Size 0] [Max Size] (globalMetas : GlobalMetas Size) :
    Size :=
  (globalMetas.flatMap fun owner => owner.2.memoryBufferMetasList.flatMap (·.metas)).foldl
    (fun largest param => max largest param.alignedSize) 0

/-- `_detect_bucket_size` from `max_tensor_bytes` on; `maxBytes` is what
`PS_MAX_BUCKET_SIZE_GB` says. -/
def bucketSizeFor (largest freeBytes maxBytes : Nat) (disableH2dBuffer : Bool) :
    Except PyError (Nat × Bool) :=
  let third := freeBytes / (3 * alignBytes) * alignBytes
  if largest ≤ third ∧ disableH2dBuffer = false then
    .ok (min (max maxBytes largest) third, disableH2dBuffer)
  else
    let half := freeBytes / (2 * alignBytes) * alignBytes
    if largest ≤ half then
      .ok (min (max maxBytes largest) half, true)
    else
      .error (.assertionError
        s!"max_tensor_bytes {largest} should be less than free_bytes {half}")

/-- `_detect_bucket_size` behind its `all_reduce`, which yields `freeBytes`. -/
def detectBucketSize (globalMetas : GlobalMetas) (freeBytes maxBytes : Nat)
    (disableH2dBuffer : Bool) : Except PyError (Nat × Bool) :=
  bucketSizeFor (maxTensorBytes globalMetas) freeBytes maxBytes disableH2dBuffer

/-- The aligned sizes of all tensors. -/
def alignedSizes (globalMetas : GlobalMetas) : List Nat :=
  (globalMetas.flatMap fun owner =>
    owner.2.memoryBufferMetasList.flatMap (·.metas)).map (·.alignedSize)

theorem mem_alignedSizes {globalMetas : GlobalMetas} {size : Nat} :
    size ∈ alignedSizes globalMetas ↔ ∃ owner ∈ globalMetas,
      ∃ buffer ∈ owner.2.memoryBufferMetasList, ∃ param ∈ buffer.metas,
        param.alignedSize = size := by
  simp only [alignedSizes, List.mem_map, List.mem_flatMap]
  constructor
  · rintro ⟨param, ⟨owner, howner, buffer, hbuffer, hparam⟩, rfl⟩
    exact ⟨owner, howner, buffer, hbuffer, param, hparam, rfl⟩
  · rintro ⟨owner, howner, buffer, hbuffer, param, hparam, rfl⟩
    exact ⟨param, ⟨owner, howner, buffer, hbuffer, hparam⟩, rfl⟩

theorem foldl_max_le_iff {Size : Type} [LinearOrder Size] (params : List (ParameterMeta Size))
    (n : Size) :
    ∀ start : Size,
      params.foldl (fun largest param => max largest param.alignedSize) start ≤ n ↔
        start ≤ n ∧ ∀ param ∈ params, param.alignedSize ≤ n := by
  induction params with
  | nil => intro start; simp
  | cons first rest ih =>
      intro start
      rw [List.foldl_cons, ih, max_le_iff, List.forall_mem_cons, and_assoc]

/-- `max_tensor_bytes` is the largest aligned size. -/
theorem maxTensorBytes_le_iff {globalMetas : GlobalMetas} {n : Nat} :
    maxTensorBytes globalMetas ≤ n ↔ ∀ size ∈ alignedSizes globalMetas, size ≤ n := by
  rw [maxTensorBytes, foldl_max_le_iff, alignedSizes, List.forall_mem_map]
  simp

/-- It does not depend on the order of the owners and their tensors. -/
theorem maxTensorBytes_perm {globalMetas other : GlobalMetas}
    (h : (alignedSizes globalMetas).Perm (alignedSizes other)) :
    maxTensorBytes globalMetas = maxTensorBytes other := by
  refine Nat.le_antisymm ?_ ?_
  · exact maxTensorBytes_le_iff.mpr fun size hsize =>
      maxTensorBytes_le_iff.mp (Nat.le_refl _) size (h.mem_iff.mp hsize)
  · exact maxTensorBytes_le_iff.mpr fun size hsize =>
      maxTensorBytes_le_iff.mp (Nat.le_refl _) size (h.mem_iff.mpr hsize)

/-- The bytes `_update_per_bucket` allocates: the shared buffer of two buckets, and the
H2D buffer unless it is disabled. -/
def allocatedBytes (bucketSize : Nat) (disableH2dBuffer : Bool) : Nat :=
  bucketSize * 2 + if disableH2dBuffer then 0 else bucketSize

/-- What `_detect_bucket_size` makes of the largest tensor and the agreed number of free
bytes: it fails when the tensor exceeds half of them, and else the tensor fits into a bucket
and the buffers fit into the memory. -/
theorem bucketSizeFor_spec (largest freeBytes maxBytes : Nat) (disableH2dBuffer : Bool) :
    (freeBytes / (2 * alignBytes) * alignBytes < largest ∧
        ∃ e, bucketSizeFor largest freeBytes maxBytes disableH2dBuffer = .error e) ∨
      (largest ≤ freeBytes / (2 * alignBytes) * alignBytes ∧
        ∃ bucketSize disabled,
          bucketSizeFor largest freeBytes maxBytes disableH2dBuffer =
            .ok (bucketSize, disabled) ∧
          largest ≤ bucketSize ∧ allocatedBytes bucketSize disabled ≤ freeBytes) := by
  have hthird : freeBytes / (3 * alignBytes) * alignBytes * 3 ≤ freeBytes := by
    simp only [alignBytes]
    omega
  have hhalf : freeBytes / (2 * alignBytes) * alignBytes * 2 ≤ freeBytes := by
    simp only [alignBytes]
    omega
  have hle : freeBytes / (3 * alignBytes) * alignBytes ≤
      freeBytes / (2 * alignBytes) * alignBytes := by
    simp only [alignBytes]
    omega
  unfold bucketSizeFor
  simp only
  by_cases hfirst : largest ≤ freeBytes / (3 * alignBytes) * alignBytes ∧
      disableH2dBuffer = false
  · obtain ⟨hfits, rfl⟩ := hfirst
    refine .inr ⟨hfits.trans hle, _, _, if_pos ⟨hfits, rfl⟩, by omega, ?_⟩
    simp only [allocatedBytes, Bool.false_eq_true, if_false]
    omega
  · rw [if_neg hfirst]
    by_cases hsecond : largest ≤ freeBytes / (2 * alignBytes) * alignBytes
    · refine .inr ⟨hsecond, _, _, if_pos hsecond, by omega, ?_⟩
      simp only [allocatedBytes, if_true]
      omega
    · exact .inl ⟨by omega, _, if_neg hsecond⟩

/-- The largest tensor does not exceed a detected bucket size. -/
theorem bucketSizeFor_le {largest freeBytes maxBytes bucketSize : Nat}
    {disableH2dBuffer disabled : Bool}
    (h : bucketSizeFor largest freeBytes maxBytes disableH2dBuffer = .ok (bucketSize, disabled)) :
    largest ≤ bucketSize := by
  rcases bucketSizeFor_spec largest freeBytes maxBytes disableH2dBuffer with
    ⟨-, e, herror⟩ | ⟨-, size, disabled', hok, hfits, -⟩
  · rw [h] at herror
    cases herror
  · obtain ⟨rfl, -⟩ := Prod.mk.inj (Except.ok.inj (h.symm.trans hok))
    exact hfits

theorem detectBucketSize_congr {globalMetas other : GlobalMetas} {freeBytes maxBytes : Nat}
    {disableH2dBuffer : Bool} (h : (alignedSizes globalMetas).Perm (alignedSizes other)) :
    detectBucketSize globalMetas freeBytes maxBytes disableH2dBuffer =
      detectBucketSize other freeBytes maxBytes disableH2dBuffer := by
  unfold detectBucketSize
  rw [maxTensorBytes_perm h]

/-- No tensor exceeds a detected bucket size. -/
theorem detectBucketSize_fits {globalMetas : GlobalMetas} {freeBytes maxBytes bucketSize : Nat}
    {disableH2dBuffer disabled : Bool}
    (h : detectBucketSize globalMetas freeBytes maxBytes disableH2dBuffer =
      .ok (bucketSize, disabled)) :
    ∀ owner ∈ globalMetas, ∀ buffer ∈ owner.2.memoryBufferMetasList, ∀ param ∈ buffer.metas,
      param.alignedSize ≤ bucketSize := by
  intro owner howner buffer hbuffer param hparam
  exact maxTensorBytes_le_iff.mp (bucketSizeFor_le h) _
    (mem_alignedSizes.mpr ⟨owner, howner, buffer, hbuffer, param, hparam, rfl⟩)

/-! ## Agreement -/

/-- `_detect_bucket_size` on one rank of the group: its address counter after the
reduction, and how it ends. -/
def Participant.detect (group : List Participant) (maxBytes : Nat) (disableH2dBuffer : Bool)
    (p : Participant) : Option (Nat × Except PyError (Nat × Bool)) := do
  let tensor ← allReduceMin (group.map Participant.tensor)
  return ((-tensor.2).toNat,
    detectBucketSize p.globalMetas tensor.1.toNat maxBytes disableH2dBuffer)

/-- Ranks that pack the same sizes all raise, exactly when the largest does not fit into
half of the smallest memory, or all return the same bucket size and mode, with room for
every tensor and buffers that fit into every rank's memory. -/
theorem detectBucketSize_uniform {group : List Participant} (hgroup : group ≠ [])
    {sizes : List Nat} (hsizes : ∀ p ∈ group, (alignedSizes p.globalMetas).Perm sizes)
    (maxBytes : Nat) (disableH2dBuffer : Bool) :
    ∃ smallest, (∃ p ∈ group, p.available = smallest) ∧ (∀ p ∈ group, smallest ≤ p.available) ∧
      (((∃ size ∈ sizes, smallest / (2 * alignBytes) * alignBytes < size) ∧
          ∀ p ∈ group, ∃ counter e,
            p.detect group maxBytes disableH2dBuffer = some (counter, .error e)) ∨
        ((∀ size ∈ sizes, size ≤ smallest / (2 * alignBytes) * alignBytes) ∧
          ∃ bucketSize disabled,
            (∀ p ∈ group, ∃ counter,
              p.detect group maxBytes disableH2dBuffer =
                some (counter, .ok (bucketSize, disabled))) ∧
            (∀ size ∈ sizes, size ≤ bucketSize) ∧
            allocatedBytes bucketSize disabled ≤ smallest)) := by
  obtain ⟨tensor, htensor⟩ := allReduceMin_isSome hgroup
  obtain ⟨⟨p₀, hp₀, hfree⟩, hle, -, -⟩ := allReduceMin_spec htensor
  have hsmallest : tensor.1.toNat = p₀.available := by omega
  -- all ranks compute with the largest tensor of the first
  have hsame : ∀ p ∈ group, p.detect group maxBytes disableH2dBuffer =
      some ((-tensor.2).toNat,
        detectBucketSize p₀.globalMetas p₀.available maxBytes disableH2dBuffer) := by
    intro p hp
    have hperm := (hsizes p hp).trans (hsizes p₀ hp₀).symm
    rw [Participant.detect, htensor, ← hsmallest, ← detectBucketSize_congr hperm]
    rfl
  have hfits : ∀ n, (∀ size ∈ sizes, size ≤ n) ↔ maxTensorBytes p₀.globalMetas ≤ n := by
    intro n
    rw [maxTensorBytes_le_iff]
    exact forall_congr' fun size => imp_congr_left (hsizes p₀ hp₀).mem_iff.symm
  refine ⟨p₀.available, ⟨p₀, hp₀, rfl⟩, fun p hp => by have := hle p hp; omega, ?_⟩
  rcases bucketSizeFor_spec (maxTensorBytes p₀.globalMetas) p₀.available maxBytes disableH2dBuffer
    with ⟨hlarge, e, herror⟩ | ⟨hsmall, bucketSize, disabled, hok, hbucket, hroom⟩
  · refine .inl ⟨?_, fun p hp => ⟨_, e, by rw [hsame p hp, detectBucketSize, herror]⟩⟩
    by_contra hnone
    push Not at hnone
    have := (hfits _).mp hnone
    omega
  · exact .inr ⟨(hfits _).mpr hsmall, bucketSize, disabled,
      fun p hp => ⟨_, by rw [hsame p hp, detectBucketSize, hok]⟩, (hfits _).mpr hbucket, hroom⟩

/-- Two ranks whose memories differ, with one tensor that fits the smaller one only
without an H2D buffer. -/
def unequalGroup : List Participant :=
  let metas : GlobalMetas := [(0, ⟨none, [⟨[⟨"a", .uint8, [512], 512⟩], 4096, 512⟩], ""⟩)]
  [⟨2048, 3, metas⟩, ⟨1024, 5, metas⟩]

theorem detectBucketSize_uniform_unequal :
    ∃ smallest, (∃ p ∈ unequalGroup, p.available = smallest) ∧
      (∀ p ∈ unequalGroup, smallest ≤ p.available) ∧
      (((∃ size ∈ [512], smallest / (2 * alignBytes) * alignBytes < size) ∧
          ∀ p ∈ unequalGroup, ∃ counter e,
            p.detect unequalGroup 1024 false = some (counter, .error e)) ∨
        ((∀ size ∈ [512], size ≤ smallest / (2 * alignBytes) * alignBytes) ∧
          ∃ bucketSize disabled,
            (∀ p ∈ unequalGroup, ∃ counter,
              p.detect unequalGroup 1024 false = some (counter, .ok (bucketSize, disabled))) ∧
            (∀ size ∈ [512], size ≤ bucketSize) ∧
            allocatedBytes bucketSize disabled ≤ smallest)) := by
  refine detectBucketSize_uniform (List.cons_ne_nil _ _) (fun p hp => ?_) 1024 false
  rcases List.mem_cons.mp hp with rfl | hp
  · exact List.Perm.refl _
  · obtain rfl := List.mem_singleton.mp hp
    exact List.Perm.refl _

end CheckpointEngine.Update
