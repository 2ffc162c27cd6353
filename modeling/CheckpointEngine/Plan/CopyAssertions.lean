/-
  `Plan.CopyAssertions`: planning where a tensor may have a negative size, and the
  assertions of `_copy_to_buffer` on what is planned.

  The header of a file that is pinned in place may let its last tensor end before it
  starts, and then the aligned size of that tensor is negative.  Only there: the buffer
  as a whole has the size of the file's data.
-/
import CheckpointEngine.Plan.H2DBuckets
import CheckpointEngine.Foundation.Fallible
import Mathlib.Algebra.Order.BigOperators.Group.List

set_option autoImplicit false

namespace CheckpointEngine.Plan

open CheckpointEngine.Foundation

/-- The assertions of `_copy_to_buffer` on ranges that go to position `offset` and on. -/
def assertRanges (size : Int) : List (BucketRange Int) → Int → Except PyError Unit
  | [], offset =>
      if offset = size then .ok ()
      else .error (.assertionError s!"offset {offset} != bucket_size {size}")
  | b :: rest, offset =>
      if offset + b.size ≤ size then assertRanges size rest (offset + b.size)
      else .error (.assertionError s!"offset {offset} + size {b.size} > bucket_size {size}")

/-- The metas of a buffer add up to its size, and only the last size may be negative. -/
structure Filled (buffer : MemoryBufferMetas Int) : Prop where
  total : (buffer.metas.map (·.alignedSize)).sum = buffer.size
  nonneg : ∀ param ∈ buffer.metas.dropLast, 0 ≤ param.alignedSize

/-- The aligned sizes of an owner's tensors, in buffer order. -/
def ownerSizes (buffers : List (MemoryBufferMetas Int)) : List Int :=
  (buffers.flatMap (·.metas)).map (·.alignedSize)

@[simp] theorem ownerSizes_nil : ownerSizes [] = [] := rfl

@[simp] theorem ownerSizes_cons (buffer : MemoryBufferMetas Int)
    (rest : List (MemoryBufferMetas Int)) :
    ownerSizes (buffer :: rest) = buffer.metas.map (·.alignedSize) ++ ownerSizes rest := by
  simp [ownerSizes]

/-! ## The bucket that is open at the end -/

/-- One more size on top of `count`, which starts again where it would exceed `bucketSize`. -/
def countSize (bucketSize count size : Int) : Int :=
  (if count + size > bucketSize then 0 else count) + size

/-- The sizes counted since the last one that did not fit. -/
def sizeSinceCut (bucketSize : Int) (sizes : List Int) : Int :=
  sizes.foldl (countSize bucketSize) 0

section Counting

variable {bucketSize : Int}

/-- A size that is not negative keeps the count where it was or makes it positive. -/
theorem countSize_bounds {count size : Int} (hcount : 0 ≤ count) (hle : count ≤ bucketSize)
    (hsize : 0 ≤ size) (hfits : size ≤ bucketSize) :
    0 ≤ countSize bucketSize count size ∧ countSize bucketSize count size ≤ bucketSize ∧
      (0 < countSize bucketSize count size ↔ 0 < count + size) := by
  unfold countSize
  split <;> omega

/-- Without negative sizes the count ends positive as soon as one size is. -/
theorem foldl_countSize_pos_iff {sizes : List Int} (hfits : ∀ size ∈ sizes, size ≤ bucketSize)
    (hnonneg : ∀ size ∈ sizes, 0 ≤ size) :
    ∀ {count : Int}, 0 ≤ count → count ≤ bucketSize →
      (0 < sizes.foldl (countSize bucketSize) count ↔ 0 < count + sizes.sum) := by
  induction sizes with
  | nil => intro count _ _; simp
  | cons size rest ih =>
      intro count hcount hle
      obtain ⟨hfit, hfits⟩ := List.forall_mem_cons.mp hfits
      obtain ⟨hsize, hnonneg⟩ := List.forall_mem_cons.mp hnonneg
      obtain ⟨hnext, hnext_le, hpos⟩ := countSize_bounds hcount hle hsize hfit
      have hsum : 0 ≤ rest.sum := List.sum_nonneg hnonneg
      rw [List.foldl_cons, List.sum_cons, ih hfits hnonneg hnext hnext_le]
      omega

/-- In one buffer the count stays below what has been read. -/
theorem foldl_countSize_le (params : List (ParameterMeta Int)) :
    ∀ {count read : Int}, count ≤ read → 0 ≤ read →
      (∀ param ∈ params.dropLast, 0 ≤ param.alignedSize) →
        (params.map (·.alignedSize)).foldl (countSize bucketSize) count ≤
          read + (params.map (·.alignedSize)).sum := by
  induction params with
  | nil => intro count read hle _ _; simpa using hle
  | cons param rest ih =>
      intro count read hle hread hnonneg
      have hnext : countSize bucketSize count param.alignedSize ≤ read + param.alignedSize := by
        unfold countSize
        split <;> omega
      rw [List.map_cons, List.foldl_cons, List.sum_cons, ← Int.add_assoc]
      cases rest with
      | nil => simpa using hnext
      | cons second rest =>
          rw [List.dropLast_cons_cons, List.forall_mem_cons] at hnonneg
          exact ih hnext (by omega) hnonneg.2

/-- In all buffers it stays below their sizes together. -/
theorem foldl_ownerSizes_le {buffers : List (MemoryBufferMetas Int)}
    (h : ∀ buffer ∈ buffers, Filled buffer) :
    ∀ {count read : Int}, count ≤ read → 0 ≤ read →
      (ownerSizes buffers).foldl (countSize bucketSize) count ≤
        read + (buffers.map fun buffer => (buffer.size : Int)).sum := by
  induction buffers with
  | nil => intro count read hle _; simpa using hle
  | cons buffer rest ih =>
      intro count read hle hread
      obtain ⟨hfilled, hrest⟩ := List.forall_mem_cons.mp h
      have hbuffer := @foldl_countSize_le bucketSize buffer.metas _ _ hle hread hfilled.nonneg
      rw [hfilled.total] at hbuffer
      rw [ownerSizes_cons, List.foldl_append, List.map_cons, List.sum_cons, ← Int.add_assoc]
      exact ih hrest hbuffer (by omega)

theorem sizeSinceCut_le {buffers : List (MemoryBufferMetas Int)}
    (h : ∀ buffer ∈ buffers, Filled buffer) :
    sizeSinceCut bucketSize (ownerSizes buffers) ≤
      (buffers.map fun buffer => (buffer.size : Int)).sum := by
  have hle := @foldl_ownerSizes_le bucketSize _ h 0 0 (Int.le_refl 0) (Int.le_refl 0)
  rwa [Int.zero_add] at hle

/-- Where something is left of the count, some buffer is not empty. -/
theorem exists_pos_of_sizeSinceCut {buffers : List (MemoryBufferMetas Int)}
    (h : ∀ buffer ∈ buffers, Filled buffer)
    (hpos : 0 < sizeSinceCut bucketSize (ownerSizes buffers)) :
    ∃ buffer ∈ buffers, 0 < buffer.size := by
  by_contra hnone
  push Not at hnone
  have hzero : (buffers.map fun buffer => (buffer.size : Int)).sum = 0 := by
    apply List.sum_eq_zero
    intro size hsize
    obtain ⟨buffer, hbuffer, rfl⟩ := List.mem_map.mp hsize
    have := hnone buffer hbuffer
    omega
  have := @sizeSinceCut_le bucketSize _ h
  omega

/-- The sizes together are those of the buffers. -/
theorem ownerSizes_sum {buffers : List (MemoryBufferMetas Int)}
    (h : ∀ buffer ∈ buffers, Filled buffer) :
    (ownerSizes buffers).sum = (buffers.map fun buffer => (buffer.size : Int)).sum := by
  induction buffers with
  | nil => rfl
  | cons buffer rest ih =>
      obtain ⟨hfilled, hrest⟩ := List.forall_mem_cons.mp h
      rw [ownerSizes_cons, List.sum_append, hfilled.total, ih hrest, List.map_cons, List.sum_cons]

end Counting

/-! ## The planner's assertion -/

section Planner

variable {bucketSize : Int}

theorem Scan.addMeta_last_size (idx : Nat) (scan : Scan Int) (param : ParameterMeta Int) :
    (scan.addMeta bucketSize idx param).last.size =
      countSize bucketSize scan.last.size param.alignedSize := by
  unfold Scan.addMeta countSize
  simp only
  split <;> rfl

theorem foldl_addMeta_last_size (idx : Nat) (params : List (ParameterMeta Int)) :
    ∀ scan : Scan Int, (params.foldl (Scan.addMeta bucketSize idx) scan).last.size =
      (params.map (·.alignedSize)).foldl (countSize bucketSize) scan.last.size := by
  induction params with
  | nil => intro scan; rfl
  | cons param rest ih =>
      intro scan
      rw [List.foldl_cons, ih, Scan.addMeta_last_size, List.map_cons, List.foldl_cons]

theorem foldl_addBuffer_last_size (buffers : List (MemoryBufferMetas Int × Nat)) :
    ∀ scan : Scan Int, (buffers.foldl (Scan.addBuffer bucketSize) scan).last.size =
      (ownerSizes (buffers.map Prod.fst)).foldl (countSize bucketSize) scan.last.size := by
  induction buffers with
  | nil => intro scan; rfl
  | cons buffer rest ih =>
      intro scan
      have hlast : (scan.addBuffer bucketSize buffer).last.size =
          (buffer.1.metas.map (·.alignedSize)).foldl (countSize bucketSize) scan.last.size :=
        foldl_addMeta_last_size buffer.2 buffer.1.metas _
      rw [List.foldl_cons, ih, hlast, List.map_cons, ownerSizes_cons, List.foldl_append]

/-- What the last bucket holds at the end of an owner's scan is the count. -/
theorem scanOwner_last_size (buffers : List (MemoryBufferMetas Int)) :
    (scanOwner bucketSize buffers).last.size = sizeSinceCut bucketSize (ownerSizes buffers) := by
  have h := @foldl_addBuffer_last_size bucketSize buffers.zipIdx ⟨[], .empty, 0, 0⟩
  rwa [show buffers.zipIdx.map Prod.fst = buffers from List.zipIdx_map_fst 0 buffers] at h

theorem ownerBuckets_ok_iff {buffers : List (MemoryBufferMetas Int)} :
    (∃ own, ownerBuckets bucketSize buffers = .ok own) ↔
      0 < sizeSinceCut bucketSize (ownerSizes buffers) := by
  simp only [ownerBuckets_eq_ok, scanOwner_last_size]
  exact ⟨fun ⟨_, hpos, _⟩ => hpos, fun hpos => ⟨_, hpos, rfl⟩⟩

/-- The planner gets through exactly if the count of every owner ends positive. -/
theorem allBuckets_ok_iff {metas : GlobalMetas Int} :
    (∃ buckets, allBuckets bucketSize metas = .ok buckets) ↔
      ∀ owner ∈ metas,
        0 < sizeSinceCut bucketSize (ownerSizes owner.2.memoryBufferMetasList) := by
  induction metas with
  | nil => exact ⟨fun _ => nofun, fun _ => ⟨[], rfl⟩⟩
  | cons owner rest ih =>
      rw [List.forall_mem_cons, ← ih, ← ownerBuckets_ok_iff]
      constructor
      · rintro ⟨buckets, hok⟩
        obtain ⟨own, hown, hok⟩ := bind_eq_ok.mp hok
        obtain ⟨others, hothers, -⟩ := bind_eq_ok.mp hok
        exact ⟨⟨own, hown⟩, others, hothers⟩
      · rintro ⟨⟨own, hown⟩, others, hothers⟩
        refine ⟨own.map (owner.1, ·) ++ others, ?_⟩
        rw [allBuckets, hown, hothers]
        rfl

end Planner

/-! ## The assertions of the copy -/

/-- Ranges that add up to `size`, of which only the first may be negative. -/
structure Fills (ranges : List (BucketRange Int)) (size : Int) : Prop where
  sum : (ranges.map (·.size)).sum = size
  nonneg : ∀ range ∈ ranges.tail, 0 ≤ range.size

theorem Fills.append {ranges : List (BucketRange Int)} {size : Int} (h : Fills ranges size)
    {range : BucketRange Int} (hnonneg : ranges = [] ∨ 0 ≤ range.size) :
    Fills (ranges ++ [range]) (size + range.size) := by
  refine ⟨by simp [h.sum], fun other hother => ?_⟩
  cases ranges with
  | nil => simp at hother
  | cons first rest =>
      rcases List.mem_append.mp (show other ∈ rest ++ [range] from hother) with hrest | hlast
      · exact h.nonneg other hrest
      · obtain rfl := List.mem_singleton.mp hlast
        exact hnonneg.resolve_left (List.cons_ne_nil _ _)

/-- What follows a range only adds to it, so no position exceeds the end. -/
theorem assertRanges_ok {size : Int} (ranges : List (BucketRange Int)) :
    ∀ {offset : Int}, offset + (ranges.map (·.size)).sum = size →
      (∀ range ∈ ranges.tail, 0 ≤ range.size) → assertRanges size ranges offset = .ok () := by
  induction ranges with
  | nil =>
      intro offset hsum _
      rw [assertRanges, if_pos (by simpa using hsum)]
  | cons b rest ih =>
      intro offset hsum hnonneg
      have hrest : 0 ≤ (rest.map (·.size)).sum :=
        List.sum_nonneg (List.forall_mem_map.mpr hnonneg)
      rw [List.map_cons, List.sum_cons] at hsum
      rw [assertRanges, if_pos (by omega)]
      exact ih (by omega) fun range hrange => hnonneg range (List.mem_of_mem_tail hrange)

/-- The recorded ranges and the pending one, inside a buffer.  Where something is recorded
in the open bucket, the pending range starts with the buffer. -/
structure Scan.Filling (scan : Scan Int) : Prop where
  closed : ∀ bucket ∈ scan.closed, Fills bucket.ranges bucket.size
  last : Fills scan.last.ranges (scan.last.size - (scan.offset - scan.startOffset))
  start : scan.last.ranges = [] ∨ scan.startOffset = 0

theorem Scan.Filling.cut {scan : Scan Int} (h : scan.Filling)
    (hle : scan.startOffset ≤ scan.offset) (idx : Nat) : (scan.cut idx).Filling := by
  refine ⟨fun bucket hbucket => ?_, ⟨?_, nofun⟩, .inl rfl⟩
  · rcases List.mem_append.mp hbucket with hclosed | hlast
    · exact h.closed bucket hclosed
    · obtain rfl := List.mem_singleton.mp hlast
      split
      · have hflushed := @Fills.append _ _ h.last
          ⟨idx, scan.startOffset, scan.offset - scan.startOffset⟩ (.inr (by simp only; omega))
        rwa [show scan.last.size - (scan.offset - scan.startOffset) +
          (scan.offset - scan.startOffset) = scan.last.size by omega] at hflushed
      · have hlast := h.last
        rwa [show scan.last.size - (scan.offset - scan.startOffset) = scan.last.size by omega]
          at hlast
  · simp [Scan.cut, H2DBucket.empty]

theorem Scan.Filling.addMeta {scan : Scan Int} (h : scan.Filling)
    (hle : scan.startOffset ≤ scan.offset) (bucketSize : Int) (idx : Nat)
    (param : ParameterMeta Int) :
    (scan.addMeta bucketSize idx param).Filling ∧
      (0 ≤ param.alignedSize → (scan.addMeta bucketSize idx param).startOffset ≤
        (scan.addMeta bucketSize idx param).offset) := by
  have hadd : ∀ scan : Scan Int, scan.Filling → scan.startOffset ≤ scan.offset →
      ∀ scan' : Scan Int, scan' = { scan with
        offset := scan.offset + param.alignedSize
        last := { scan.last with
          size := scan.last.size + param.alignedSize
          items := scan.last.items ++ [param] } } →
      scan'.Filling ∧ (0 ≤ param.alignedSize → scan'.startOffset ≤ scan'.offset) := by
    rintro scan h hle _ rfl
    refine ⟨⟨h.closed, ?_, h.start⟩, fun hnonneg => by simp only; omega⟩
    have hlast := h.last
    simp only
    rwa [show scan.last.size + param.alignedSize -
      (scan.offset + param.alignedSize - scan.startOffset) =
        scan.last.size - (scan.offset - scan.startOffset) by omega]
  unfold Scan.addMeta
  simp only
  split
  · exact hadd _ (h.cut hle idx) (Int.le_refl _) _ rfl
  · exact hadd _ h hle _ rfl

theorem Scan.Filling.foldl_addMeta (bucketSize : Int) (idx : Nat)
    (params : List (ParameterMeta Int)) :
    ∀ {scan : Scan Int}, scan.Filling → scan.startOffset ≤ scan.offset →
      (∀ param ∈ params.dropLast, 0 ≤ param.alignedSize) →
        (params.foldl (Scan.addMeta bucketSize idx) scan).Filling := by
  induction params with
  | nil => intro scan h _ _; exact h
  | cons param rest ih =>
      intro scan h hle hnonneg
      obtain ⟨hnext, hstart⟩ := h.addMeta hle bucketSize idx param
      cases rest with
      | nil => exact hnext
      | cons second rest =>
          rw [List.dropLast_cons_cons, List.forall_mem_cons] at hnonneg
          exact ih hnext (hstart hnonneg.1) hnonneg.2

theorem foldl_addMeta_offset (bucketSize : Int) (idx : Nat) (params : List (ParameterMeta Int)) :
    ∀ scan : Scan Int, (params.foldl (Scan.addMeta bucketSize idx) scan).offset =
      scan.offset + (params.map (·.alignedSize)).sum := by
  induction params with
  | nil => intro scan; simp
  | cons param rest ih =>
      intro scan
      rw [List.foldl_cons, ih, Scan.addMeta_offset, List.map_cons, List.sum_cons, Int.add_assoc]

/-- Between two buffers every bucket is filled by its ranges. -/
def Scan.AllFilled (scan : Scan Int) : Prop :=
  ∀ bucket ∈ scan.closed ++ [scan.last], Fills bucket.ranges bucket.size

theorem Scan.AllFilled.addBuffer {scan : Scan Int} (h : scan.AllFilled) {bucketSize : Int}
    {buffer : MemoryBufferMetas Int × Nat} (hfilled : Filled buffer.1) :
    (scan.addBuffer bucketSize buffer).AllFilled := by
  have hstart : ({ scan with startOffset := 0, offset := 0 } : Scan Int).Filling :=
    ⟨fun bucket hbucket => h bucket (List.mem_append_left _ hbucket),
      by simpa using h scan.last (by simp), .inr rfl⟩
  have hend := hstart.foldl_addMeta bucketSize buffer.2 buffer.1.metas (Int.le_refl 0)
    hfilled.nonneg
  have hoffset := foldl_addMeta_offset bucketSize buffer.2 buffer.1.metas
    { scan with startOffset := 0, offset := 0 }
  unfold Scan.addBuffer
  generalize buffer.1.metas.foldl (Scan.addMeta bucketSize buffer.2)
    { scan with startOffset := 0, offset := 0 } = read at hend hoffset ⊢
  rw [hfilled.total, Int.zero_add] at hoffset
  intro bucket hbucket
  rcases List.mem_append.mp hbucket with hclosed | hlast
  · exact hend.closed bucket hclosed
  · obtain rfl := List.mem_singleton.mp hlast
    have hflushed := @Fills.append _ _ hend.last
      ⟨buffer.2, read.startOffset, read.offset - read.startOffset⟩
      (hend.start.imp_right fun hzero => by simp only; omega)
    rwa [show read.last.size - (read.offset - read.startOffset) +
      (read.offset - read.startOffset) = read.last.size by omega] at hflushed

theorem Scan.AllFilled.foldl_addBuffer (bucketSize : Int)
    {buffers : List (MemoryBufferMetas Int × Nat)}
    (hbuffers : ∀ buffer ∈ buffers, Filled buffer.1) :
    ∀ {scan : Scan Int}, scan.AllFilled →
      (buffers.foldl (Scan.addBuffer bucketSize) scan).AllFilled := by
  induction buffers with
  | nil => intro scan h; exact h
  | cons buffer rest ih =>
      intro scan h
      obtain ⟨hfirst, hrest⟩ := List.forall_mem_cons.mp hbuffers
      exact ih hrest (h.addBuffer hfirst)

theorem scanOwner_allFilled (bucketSize : Int) {buffers : List (MemoryBufferMetas Int)}
    (h : ∀ buffer ∈ buffers, Filled buffer) : (scanOwner bucketSize buffers).AllFilled := by
  have hempty : (⟨[], .empty, 0, 0⟩ : Scan Int).AllFilled := fun bucket hbucket => by
    obtain rfl := List.mem_singleton.mp hbucket
    exact ⟨rfl, by simp [H2DBucket.empty]⟩
  exact hempty.foldl_addBuffer bucketSize fun buffer hbuffer =>
    h buffer.1 (List.fst_mem_of_mem_zipIdx hbuffer)

/-- No assertion of the copy fails for a bucket of the planner. -/
theorem allBuckets_asserted {bucketSize : Int} {metas : GlobalMetas Int}
    (h : ∀ owner ∈ metas, ∀ buffer ∈ owner.2.memoryBufferMetasList, Filled buffer)
    {buckets : List (Rank × H2DBucket Int)} (hok : allBuckets bucketSize metas = .ok buckets) :
    ∀ b ∈ buckets, assertRanges b.2.size b.2.ranges 0 = .ok () := by
  induction metas generalizing buckets with
  | nil =>
      obtain rfl := Except.ok.inj hok
      exact nofun
  | cons owner rest ih =>
      obtain ⟨hfirst, hrest⟩ := List.forall_mem_cons.mp h
      obtain ⟨own, hown, hok⟩ := bind_eq_ok.mp hok
      obtain ⟨others, hothers, hok⟩ := bind_eq_ok.mp hok
      obtain rfl : own.map (owner.1, ·) ++ others = buckets := Except.ok.inj hok
      intro b hb
      rcases List.mem_append.mp hb with hown' | hother
      · obtain ⟨bucket, hbucket, rfl⟩ := List.mem_map.mp hown'
        obtain ⟨-, rfl⟩ := ownerBuckets_eq_ok.mp hown
        have hfills := scanOwner_allFilled bucketSize hfirst bucket hbucket
        exact assertRanges_ok _ (by rw [Int.zero_add, hfills.sum]) hfills.nonneg
      · exact ih hrest hothers b hother

end CheckpointEngine.Plan
