/-
  `Plan.Transfer`: filling a buffer with a planned bucket, the copy loop of
  `_copy_to_buffer` in `checkpoint_engine/ps.py`.

  The loop is the same for a copy out of the rank's own memory pool and for an RDMA
  read of another rank's: range `b` is read at `ptrs[b.idx] + b.offset`.  A read
  that leaves its memory buffer fails either way, by the sizes of the two slices or
  by the transfer engine.
-/
import CheckpointEngine.Plan.Tiling

set_option autoImplicit false

namespace CheckpointEngine.Plan

open CheckpointEngine.Foundation

/-- The loop of `_copy_to_buffer` from position `offset` of the buffer on, between
its two assertions; `none` when one of them, or a copy, raises. -/
def copyRanges (memory : Bytes) (pool : List MemoryBufferMetas) (size : Nat) :
    List BucketRange → Nat → Bytes → Option Bytes
  | [], offset, buffer => if offset = size then some buffer else none
  | b :: rest, offset, buffer =>
      if offset + b.size ≤ size then
        match pool[b.idx]? with
        | none => none
        | some source =>
            if b.size = 0 ∨ b.offset + b.size ≤ source.size then
              copyRanges memory pool size rest (offset + b.size)
                (buffer.copy ⟨offset, b.size⟩ memory (source.ptr + b.offset))
            else none
      else none

/-- Where `pool[idx]` begins. -/
def bufferPtr (pool : List MemoryBufferMetas) (idx : Nat) : Nat :=
  ((pool[idx]?).map (·.ptr)).getD 0

/-- The range lies inside one of the memory buffers. -/
def InPool (pool : List MemoryBufferMetas) (range : BucketRange) : Prop :=
  ∃ source, pool[range.idx]? = some source ∧ range.offset + range.size ≤ source.size

/-- The loop succeeds, and byte `p` of the bucket is the byte the `p`-th address of the
ranges names. -/
theorem copyRanges_ok {memory : Bytes} {pool : List MemoryBufferMetas} {size : Nat}
    (ranges : List BucketRange) :
    ∀ (offset : Nat) (buffer : Bytes), (∀ range ∈ ranges, InPool pool range) →
      offset + (ranges.map (·.size)).sum = size →
      ∃ out, copyRanges memory pool size ranges offset buffer = some out ∧
        (∀ a < offset, out a = buffer a) ∧
        ∀ p idx place, (rangeAddresses ranges)[p]? = some (idx, place) →
          out (offset + p) = memory (bufferPtr pool idx + place) := by
  induction ranges with
  | nil =>
      intro offset buffer _ hsize
      have hdone : offset = size := by simpa using hsize
      exact ⟨buffer, by rw [copyRanges, if_pos hdone], fun _ _ => rfl,
        fun p idx place h => by simp [rangeAddresses] at h⟩
  | cons b rest ih =>
      intro offset buffer hin hsize
      have hsum : offset + b.size + (rest.map (·.size)).sum = size := by
        simp only [List.map_cons, List.sum_cons] at hsize
        omega
      obtain ⟨source, hsource, hfits⟩ := hin b List.mem_cons_self
      obtain ⟨out, hok, hbelow, hrest⟩ := ih (offset + b.size)
        (buffer.copy ⟨offset, b.size⟩ memory (source.ptr + b.offset))
        (fun range hrange => hin range (List.mem_cons_of_mem _ hrange)) hsum
      refine ⟨out, ?_, ?_, ?_⟩
      · rw [copyRanges, if_pos (by omega), hsource]
        simp only
        rw [if_pos (.inr hfits), hok]
      · intro a ha
        rw [hbelow a (by omega)]
        exact Memory.copy_outside fun hcontains => by
          have : offset ≤ a := hcontains.1
          omega
      · intro p idx place hp
        have hsplit : rangeAddresses (b :: rest) = b.addresses ++ rangeAddresses rest := by
          simp [rangeAddresses]
        rw [hsplit] at hp
        rcases Nat.lt_or_ge p b.size with hlt | hge
        · -- a byte of this range: the rest of the loop does not touch it
          rw [List.getElem?_append_left (by simpa using hlt), BucketRange.addresses,
            getElem?_span hlt] at hp
          obtain ⟨rfl, rfl⟩ := Prod.mk.inj (Option.some.inj hp)
          rw [hbelow _ (by omega), Memory.copy_inside hlt]
          simp [bufferPtr, hsource, Nat.add_assoc]
        · rw [List.getElem?_append_right (by simpa using hge),
            BucketRange.length_addresses] at hp
          have := hrest _ _ _ hp
          rwa [show offset + b.size + (p - b.size) = offset + p by omega] at this

/-! ## The ranges of a plan lie inside the memory buffers -/

/-- All ranges recorded so far lie inside the pool. -/
def Scan.Within (pool : List MemoryBufferMetas) (scan : Scan) : Prop :=
  ∀ bucket ∈ scan.closed ++ [scan.last], ∀ range ∈ bucket.ranges, InPool pool range

theorem Scan.Within.flush {pool : List MemoryBufferMetas} {scan : Scan} {idx : Nat}
    {source : MemoryBufferMetas} (h : scan.Within pool) (hsource : pool[idx]? = some source)
    (hstart : scan.startOffset ≤ scan.offset) (hend : scan.offset ≤ source.size) :
    ∀ range ∈ (scan.flush idx).ranges, InPool pool range := by
  intro range hrange
  rcases List.mem_append.mp hrange with hold | hnew
  · exact h scan.last (by simp) range hold
  · obtain rfl := List.mem_singleton.mp hnew
    refine ⟨source, hsource, ?_⟩
    simp only
    omega

theorem Scan.Within.addMeta {pool : List MemoryBufferMetas} {scan : Scan} {idx : Nat}
    {source : MemoryBufferMetas} (h : scan.Within pool) (hsource : pool[idx]? = some source)
    (hstart : scan.startOffset ≤ scan.offset) (hend : scan.offset ≤ source.size)
    (bucketSize : Nat) (param : ParameterMeta) :
    (scan.addMeta bucketSize idx param).Within pool ∧
      (scan.addMeta bucketSize idx param).startOffset ≤
        (scan.addMeta bucketSize idx param).offset := by
  have hflush := h.flush hsource hstart hend
  unfold Scan.addMeta
  simp only
  split
  · refine ⟨?_, by simp [Scan.cut]⟩
    intro bucket hbucket range hrange
    simp only [Scan.cut, List.append_assoc, List.mem_append, List.singleton_append,
      List.mem_cons, List.not_mem_nil, or_false] at hbucket
    rcases hbucket with hclosed | rfl | rfl
    · exact h bucket (List.mem_append_left _ hclosed) range hrange
    · split at hrange
      · exact hflush range hrange
      · exact h scan.last (by simp) range hrange
    · simp [H2DBucket.empty] at hrange
  · refine ⟨?_, hstart.trans (Nat.le_add_right _ _)⟩
    intro bucket hbucket range hrange
    rcases List.mem_append.mp hbucket with hclosed | hlast
    · exact h bucket (List.mem_append_left _ hclosed) range hrange
    · obtain rfl := List.mem_singleton.mp hlast
      exact h scan.last (by simp) range hrange

theorem Scan.Within.foldl_addMeta {pool : List MemoryBufferMetas} {idx : Nat}
    {source : MemoryBufferMetas} (hsource : pool[idx]? = some source) (bucketSize : Nat)
    (params : List ParameterMeta) :
    ∀ scan : Scan, scan.Within pool → scan.startOffset ≤ scan.offset →
      scan.offset + totalSize params ≤ source.size →
      (params.foldl (Scan.addMeta bucketSize idx) scan).Within pool ∧
        (params.foldl (Scan.addMeta bucketSize idx) scan).startOffset ≤
          (params.foldl (Scan.addMeta bucketSize idx) scan).offset ∧
        (params.foldl (Scan.addMeta bucketSize idx) scan).offset ≤ source.size := by
  induction params with
  | nil =>
      intro scan h hstart hend
      exact ⟨h, hstart, by simpa [totalSize] using hend⟩
  | cons param rest ih =>
      intro scan h hstart hend
      have htotal : totalSize (param :: rest) = param.alignedSize + totalSize rest := by
        simp [totalSize]
      obtain ⟨hwithin, hstart'⟩ := h.addMeta hsource hstart (by omega) bucketSize param
      refine ih _ hwithin hstart' ?_
      rw [Scan.addMeta_offset]
      omega

theorem Scan.Within.addBuffer {pool : List MemoryBufferMetas} {scan : Scan}
    (h : scan.Within pool) {source : MemoryBufferMetas} {idx : Nat}
    (hsource : pool[idx]? = some source) (htile : totalSize source.metas ≤ source.size)
    (bucketSize : Nat) : (scan.addBuffer bucketSize (source, idx)).Within pool := by
  obtain ⟨hwithin, hstart, hend⟩ := Scan.Within.foldl_addMeta hsource bucketSize source.metas
    { scan with startOffset := 0, offset := 0 } h (Nat.le_refl _) (by simpa using htile)
  intro bucket hbucket range hrange
  rcases List.mem_append.mp hbucket with hclosed | hlast
  · exact hwithin bucket (List.mem_append_left _ hclosed) range hrange
  · obtain rfl := List.mem_singleton.mp hlast
    exact hwithin.flush hsource hstart hend range hrange

/-- Every range of an owner's plan lies inside the owner's memory buffers. -/
theorem scanOwner_within {pool : List MemoryBufferMetas} (bucketSize : Nat)
    (htile : ∀ source ∈ pool, totalSize source.metas ≤ source.size) :
    (scanOwner bucketSize pool).Within pool := by
  have hfold : ∀ (buffers : List (MemoryBufferMetas × Nat)) (scan : Scan),
      (∀ buffer ∈ buffers, pool[buffer.2]? = some buffer.1) → scan.Within pool →
      (buffers.foldl (Scan.addBuffer bucketSize) scan).Within pool := by
    intro buffers
    induction buffers with
    | nil => intro scan _ h; exact h
    | cons buffer rest ih =>
        intro scan hbuffers h
        have hsource := hbuffers buffer List.mem_cons_self
        refine ih _ (fun b hb => hbuffers b (List.mem_cons_of_mem _ hb)) ?_
        exact h.addBuffer hsource (htile _ (List.mem_of_getElem? hsource)) bucketSize
  refine hfold pool.zipIdx _ ?_ ?_
  · rintro ⟨source, idx⟩ hbuffer
    exact List.mem_zipIdx_iff_getElem?.mp hbuffer
  · intro bucket hbucket range hrange
    obtain rfl := List.mem_singleton.mp hbucket
    simp [H2DBucket.empty] at hrange

/-! ## All buckets of a plan -/

/-- The buckets of one owner, in order. -/
def ownerPlan (bucketSize : Nat) (buffers : List MemoryBufferMetas) : List H2DBucket :=
  (scanOwner bucketSize buffers).closed ++ [(scanOwner bucketSize buffers).last]

/-- The planner succeeds and lists the owners' buckets one owner after the other. -/
theorem PlannerInput.allBuckets_eq {bucketSize : Nat} {globalMetas : GlobalMetas}
    (h : ∀ owner ∈ globalMetas, Plannable bucketSize owner.2.memoryBufferMetasList) :
    allBuckets bucketSize globalMetas =
      .ok (globalMetas.flatMap fun owner =>
        (ownerPlan bucketSize owner.2.memoryBufferMetasList).map (owner.1, ·)) := by
  induction globalMetas with
  | nil => rfl
  | cons owner rest ih =>
      obtain ⟨ownerRank, items⟩ := owner
      have hpos : (scanOwner bucketSize items.memoryBufferMetasList).last.size > 0 := by
        obtain ⟨buckets, hok, _⟩ := (h _ List.mem_cons_self).ownerBuckets_carry
        exact (ownerBuckets_eq_ok.mp hok).1
      rw [allBuckets, ih fun o ho => h o (List.mem_cons_of_mem _ ho), ownerBuckets,
        if_pos hpos]
      rfl

end CheckpointEngine.Plan
