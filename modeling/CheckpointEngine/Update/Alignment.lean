/-
  `Update.Alignment`: where tensors start in the shared buffer, and when a view of
  their dtype can be taken there.

  Buffers pinned by copying are padded tensor by tensor.  A file pinned in place keeps
  its own layout, so the sizes that add up to an offset are no multiples of anything,
  and neither is a configured bucket size, at which every other bucket starts.
-/
import CheckpointEngine.Plan.Tiling
import CheckpointEngine.Update.Schedule
import CheckpointEngine.Update.BucketSize

set_option autoImplicit false

namespace CheckpointEngine.Update

open CheckpointEngine.Foundation CheckpointEngine.Plan CheckpointEngine.Registry

/-! ## Aligned metadata -/

/-- The tensor may start at this offset: `view(dtype)` accepts it. -/
def StartsAligned (param : ParameterMeta) (offset : Nat) : Prop := param.dtype.itemsize ∣ offset

instance (param : ParameterMeta) (offset : Nat) : Decidable (StartsAligned param offset) :=
  inferInstanceAs (Decidable (_ ∣ _))

theorem startsAligned_zero (param : ParameterMeta) : StartsAligned param 0 :=
  Nat.dvd_zero param.dtype.itemsize

/-- Every metadata entry of the owner's buckets is aligned, whatever index a bucket has. -/
def OwnerAligned (bucketSize : Nat) (buffers : List MemoryBufferMetas) : Prop :=
  ∀ buckets, ownerBuckets bucketSize buffers = .ok buckets → ∀ bucket ∈ buckets, ∀ gidx,
    ∀ item ∈ toNamedTensor bucket.items (gidx % 2 * bucketSize),
      item.dtype.itemsize ∣ item.offset

/-- Counting the bytes since a tensor last did not fit behind the ones before it, every
tensor is reached at a multiple of its itemsize; and its itemsize divides the bucket size. -/
def PacksAligned (bucketSize : Nat) (params : List ParameterMeta) : Prop :=
  Lands bucketSize ParameterMeta.alignedSize StartsAligned 0 params ∧
    ∀ param ∈ params, param.dtype.itemsize ∣ bucketSize

/-- Tensors that are padded to 16 bytes pack aligned into buckets of such a size. -/
theorem packsAligned_of_dvd_sixteen {bucketSize : Nat} {params : List ParameterMeta}
    (hsizes : ∀ param ∈ params, 16 ∣ param.alignedSize) (hbucket : 16 ∣ bucketSize) :
    PacksAligned bucketSize params := by
  constructor
  · refine lands_of_fill (Nat.dvd_zero 16) ?_ ?_ (Nat.dvd_zero 16)
    · intro param hparam fill hfill
      exact Nat.dvd_add hfill (hsizes param hparam)
    · intro param _ fill hfill
      exact Nat.dvd_trans param.dtype.itemsize_dvd_sixteen hfill
  · intro param _
    exact Nat.dvd_trans param.dtype.itemsize_dvd_sixteen hbucket

theorem toNamedTensor_aligned {params : List ParameterMeta} {offset : Nat} :
    (∀ item ∈ toNamedTensor params offset, item.dtype.itemsize ∣ item.offset) ↔
      Lies ParameterMeta.alignedSize StartsAligned offset params := by
  induction params generalizing offset with
  | nil => simp [toNamedTensor, Lies]
  | cons param rest ih =>
      simp only [toNamedTensor, Lies, List.forall_mem_cons, ih]
      exact Iff.rfl

/-- Moving a bucket to `offset` keeps it aligned exactly if all itemsizes divide `offset`. -/
theorem lies_shift {params : List ParameterMeta} {offset : Nat} :
    ∀ {start : Nat}, Lies ParameterMeta.alignedSize StartsAligned start params →
      (Lies ParameterMeta.alignedSize StartsAligned (offset + start) params ↔
        ∀ param ∈ params, param.dtype.itemsize ∣ offset) := by
  induction params with
  | nil => intro start _; simp [Lies]
  | cons param rest ih =>
      intro start h
      obtain ⟨hhead, hrest⟩ := h
      rw [Lies, Nat.add_assoc, ih hrest, List.forall_mem_cons]
      exact and_congr_left' (Nat.dvd_add_iff_left hhead).symm

/-- The first bucket starts at 0, the second at the bucket size, and so on. -/
theorem bucket_aligned {bucketSize : Nat} {params : List ParameterMeta} :
    (∀ gidx, ∀ item ∈ toNamedTensor params (gidx % 2 * bucketSize),
        item.dtype.itemsize ∣ item.offset) ↔
      Lies ParameterMeta.alignedSize StartsAligned 0 params ∧
        ∀ param ∈ params, param.dtype.itemsize ∣ bucketSize := by
  simp only [toNamedTensor_aligned]
  constructor
  · intro h
    have heven := h 0
    have hodd := h 1
    rw [Nat.zero_mod, Nat.zero_mul] at heven
    rw [show 1 % 2 * bucketSize = bucketSize + 0 by omega] at hodd
    exact ⟨heven, (lies_shift heven).mp hodd⟩
  · rintro ⟨heven, hsize⟩ gidx
    rcases Nat.mod_two_eq_zero_or_one gidx with hpar | hpar
    · rw [hpar, Nat.zero_mul]
      exact heven
    · rw [hpar, Nat.one_mul]
      exact (lies_shift heven).mpr hsize

/-- Aligned metadata for all buckets that carry the bins of a packing. -/
theorem buckets_aligned (bucketSize : Nat) {buckets : List H2DBucket}
    {bins : List (List Entry)} (h : List.Forall₂ Carries buckets bins) :
    (∀ bucket ∈ buckets, ∀ gidx, ∀ item ∈ toNamedTensor bucket.items (gidx % 2 * bucketSize),
        item.dtype.itemsize ∣ item.offset) ↔
      (∀ bin ∈ bins.map (List.map Entry.param),
        Lies ParameterMeta.alignedSize StartsAligned 0 bin) ∧
      ∀ param ∈ bins.flatten.map Entry.param, param.dtype.itemsize ∣ bucketSize := by
  induction h with
  | nil => simp
  | cons hhead _ ih =>
      rw [List.forall_mem_cons, ih, bucket_aligned, hhead.items_eq, List.flatten_cons,
        List.map_append, List.map_cons, List.forall_mem_cons, List.forall_mem_append]
      tauto

/-- One owner: its metadata is aligned exactly if its tensors pack aligned. -/
theorem ownerAligned_iff {bucketSize : Nat} {buffers : List MemoryBufferMetas}
    (h : Plannable bucketSize buffers) :
    OwnerAligned bucketSize buffers ↔ PacksAligned bucketSize (buffers.flatMap (·.metas)) := by
  obtain ⟨buckets, hok, hcarries⟩ := h.ownerBuckets_carry
  have hbins : (nextFit bucketSize Entry.weight (entries buffers)).map (List.map Entry.param) =
      nextFit bucketSize ParameterMeta.alignedSize (buffers.flatMap (·.metas)) := by
    rw [← entries_map_param, nextFit_map]
    rfl
  have hiff := buckets_aligned bucketSize hcarries
  rw [hbins, nextFit_flatten, entries_map_param,
    nextFit_lies startsAligned_zero] at hiff
  rw [PacksAligned, ← hiff]
  constructor
  · intro haligned
    exact haligned buckets hok
  · intro haligned buckets' hok'
    obtain rfl := Except.ok.inj (hok.symm.trans hok')
    exact haligned

/-- Without bytes the planner's assertion fails, and no metadata is sent. -/
theorem ownerBuckets_empty {bucketSize : Nat} {buffers : List MemoryBufferMetas}
    (hempty : totalSize (buffers.flatMap (·.metas)) = 0) (buckets : List H2DBucket) :
    ownerBuckets bucketSize buffers ≠ .ok buckets := by
  obtain ⟨bin, hbin, hlast⟩ := exists_of_forall₂ (scanOwner_carries bucketSize buffers)
    (List.mem_append_right _ (List.mem_singleton_self (scanOwner bucketSize buffers).last))
  have hload : load Entry.weight bin ≤ load Entry.weight (entries buffers) := by
    rw [← nextFit_flatten bucketSize Entry.weight (entries buffers), load_flatten]
    exact le_load_of_mem hbin
  rw [load_entries, hempty, ← hlast.size_eq] at hload
  intro hok
  have hpos := (ownerBuckets_eq_ok.mp hok).1
  omega

/-- **Aligned views.**  For a detected bucket size, all metadata of an owner that has
bytes is aligned exactly if the owner's tensors pack aligned. -/
theorem ownerAligned_iff_packsAligned {globalMetas : GlobalMetas}
    {freeBytes maxBytes bucketSize : Nat} {disableH2dBuffer disabled : Bool}
    (hdetect : detectBucketSize globalMetas freeBytes maxBytes disableH2dBuffer =
      .ok (bucketSize, disabled))
    {owner : Rank × MemoryBufferMetaList} (howner : owner ∈ globalMetas) :
    OwnerAligned bucketSize owner.2.memoryBufferMetasList ↔
      (0 < totalSize (owner.2.memoryBufferMetasList.flatMap (·.metas)) →
        PacksAligned bucketSize (owner.2.memoryBufferMetasList.flatMap (·.metas))) := by
  have hfits := detectBucketSize_fits hdetect owner howner
  rcases Nat.eq_zero_or_pos (totalSize (owner.2.memoryBufferMetasList.flatMap (·.metas)))
    with hempty | hpos
  · constructor
    · intro _ hbytes
      omega
    · intro _ buckets hok
      exact absurd hok (ownerBuckets_empty hempty buckets)
  · rw [ownerAligned_iff ⟨hfits, hpos⟩]
    constructor
    · intro haligned _
      exact haligned
    · intro haligned
      exact haligned hpos

/-- Two files for in-place pinning: three bytes in one, a `float32` in the other. -/
def oddHost : Host where
  loadCheckpoint _ := .ok []
  safetensors path :=
    if path = "/dev/shm/a.safetensors" then .ok ⟨[⟨"a", .uint8, [3], 0, 3, 3, rfl⟩], 3⟩
    else .ok ⟨[⟨"b", .float32, [1], 0, 4, 4, rfl⟩], 4⟩
  allocate k := 4096 * (k + 1)
  pinRaises _ := none

/-- The buffers of the two files. -/
def oddBuffers : List MemoryBuffer :=
  [⟨⟨4096, 3⟩, 3, [⟨"a", .uint8, [3], 3⟩], true⟩, ⟨⟨8192, 4⟩, 4, [⟨"b", .float32, [1], 4⟩], true⟩]

/-- What rank 0 announces of them. -/
def oddMetas : GlobalMetas := [(0, ⟨none, announced oddBuffers, ""⟩)]

theorem ownerAligned_iff_packsAligned_odd :
    OwnerAligned 768 (announced oddBuffers) ↔
      (0 < totalSize ((announced oddBuffers).flatMap (·.metas)) →
        PacksAligned 768 ((announced oddBuffers).flatMap (·.metas))) := by
  have hdetect : detectBucketSize oddMetas 2400 (8 <<< 30) false = .ok (768, false) := rfl
  exact ownerAligned_iff_packsAligned hdetect List.mem_cons_self

/-- The `float32` of the second file starts at offset 3. -/
theorem oddBuffers_not_aligned :
    (∀ path file, oddHost.safetensors path = .ok file → file.WellFormed) ∧
      registerCheckpoint oddHost ["/dev/shm/a.safetensors", "/dev/shm/b.safetensors"] [] [] true =
        .ok oddBuffers ∧
      detectBucketSize oddMetas 2400 (8 <<< 30) false = .ok (768, false) ∧
      ¬ OwnerAligned 768 (announced oddBuffers) := by
  refine ⟨?_, rfl, rfl, ?_⟩
  · intro path file hfile
    simp only [oddHost] at hfile
    split at hfile
    · obtain rfl := Except.ok.inj hfile
      decide
    · obtain rfl := Except.ok.inj hfile
      decide
  · intro haligned
    have hsecond := haligned _ rfl _ List.mem_cons_self 0 ⟨"b", .float32, [1], 3⟩ (by decide)
    revert hsecond
    decide

end CheckpointEngine.Update
