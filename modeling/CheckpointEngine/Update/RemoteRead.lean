/-
  `Update.RemoteRead`: the RDMA path of `_copy_to_buffer` in `checkpoint_engine/ps.py`.

  With an `owner_rank` the loop copies nothing.  It collects what is to be read, and the
  transfer engine reads it from the owner's memory, one piece in whatever order with the
  others.  The engine only reads from and into memory that is registered with it.
-/
import CheckpointEngine.Foundation.Dictionary
import CheckpointEngine.Update.Delivery

set_option autoImplicit false

namespace CheckpointEngine.Plan

open CheckpointEngine.Foundation

/-! ## What is to be read -/

/-- An entry of `buf_ptrs`, `remote_ptrs` and `lens`. -/
structure Transfer where
  bufPtr : Nat
  remotePtr : Nat
  len : Nat
  deriving DecidableEq, Repr

/-- Where a transfer puts its bytes. -/
def Transfer.target (t : Transfer) : Region := ⟨t.bufPtr, t.len⟩

/-- Where it takes them. -/
def Transfer.source (t : Transfer) : Region := ⟨t.remotePtr, t.len⟩

/-- What it does to the memory of the reader. -/
def Transfer.write (remote : Bytes) (t : Transfer) : Write UInt8 :=
  ⟨t.bufPtr, remote.read t.remotePtr t.len⟩

/-- `_get_addr_ptrs`. -/
def getAddrPtrs (globalMetas : GlobalMetas) (ownerRank : Rank) :
    Except PyError (Option String × List (Nat × Nat)) :=
  match globalMetas.lookup ownerRank with
  | none => .error (.keyError (toString ownerRank))
  | some items =>
      .ok (items.p2pStoreAddr, items.memoryBufferMetasList.map fun x => (x.ptr, x.size))

/-- The loop of `_copy_to_buffer` with an `owner_rank`, from position `offset` of the buffer
on; `none` when one of its assertions, or `ptrs[b.idx]`, raises. -/
def collectTransfers (ptrBase : Nat) (ptrs : List (Nat × Nat)) (size : Nat) :
    List BucketRange → Nat → Option (List Transfer)
  | [], offset => if offset = size then some [] else none
  | b :: rest, offset =>
      if offset + b.size ≤ size then do
        let ptr ← ptrs[b.idx]?
        let others ← collectTransfers ptrBase ptrs size rest (offset + b.size)
        return ⟨ptrBase + offset, ptr.1 + b.offset, b.size⟩ :: others
      else none

/-- The transfers are those of a copy that makes `out` of `buffer`. -/
structure Collected (memory : Bytes) (pool : List MemoryBufferMetas) (base size offset : Nat)
    (buffer out : Bytes) (batch : List Transfer) : Prop where
  targets : ∀ t ∈ batch, base + offset ≤ t.bufPtr ∧ t.bufPtr + t.len ≤ base + size
  apart : (batch.map Transfer.target).Pairwise Region.Apart
  sources : ∀ t ∈ batch, t.len = 0 ∨
    ∃ source ∈ pool, source.ptr ≤ t.remotePtr ∧ t.remotePtr + t.len ≤ source.ptr + source.size
  agrees : ∀ m : Bytes, (∀ j < size, m (base + j) = buffer j) →
    ∀ j < size, m.writeAll (batch.map (Transfer.write memory)) (base + j) = out j

theorem Transfer.write_region (remote : Bytes) (t : Transfer) :
    (t.write remote).region = t.target := by
  simp [Transfer.write, Write.region, Transfer.target, Memory.read]

/-- A transfer does to the memory what the copy does to the buffer in it. -/
theorem Transfer.write_eq_copy {memory m buffer : Bytes} {base size offset n start : Nat}
    (hm : ∀ j < size, m (base + j) = buffer j) {j : Nat} (hj : j < size) :
    m.write (Transfer.write memory ⟨base + offset, start, n⟩) (base + j) =
      buffer.copy ⟨offset, n⟩ memory start j := by
  let t : Transfer := ⟨base + offset, start, n⟩
  by_cases hin : offset ≤ j ∧ j < offset + n
  · obtain ⟨k, rfl⟩ := Nat.exists_eq_add_of_le hin.1
    have hk : k < n := by omega
    have hlength : k < (t.write memory).bytes.length := by simpa [t, Transfer.write, Memory.read]
    have hwritten : m.write (t.write memory) (base + offset + k) = memory (start + k) := by
      rw [show base + offset = (t.write memory).start from rfl, Memory.write_inside hlength]
      simp [t, Transfer.write, Memory.read]
    rw [← Nat.add_assoc, hwritten]
    exact (@Memory.copy_inside _ buffer memory ⟨offset, n⟩ start k hk).symm
  · rw [@Memory.copy_outside _ buffer memory ⟨offset, n⟩ start j hin, ← hm j hj]
    refine Memory.write_outside fun hcontains => hin ?_
    rw [Transfer.write_region] at hcontains
    simp only [Transfer.target, Region.Contains] at hcontains
    omega

/-- A range more. -/
theorem Collected.cons {memory : Bytes} {pool : List MemoryBufferMetas} {base size offset : Nat}
    {buffer out : Bytes} {batch : List Transfer} {b : BucketRange} {source : MemoryBufferMetas}
    (h : Collected memory pool base size (offset + b.size)
      (buffer.copy ⟨offset, b.size⟩ memory (source.ptr + b.offset)) out batch)
    (hsource : source ∈ pool) (hfits : offset + b.size ≤ size)
    (hinside : b.size = 0 ∨ b.offset + b.size ≤ source.size) :
    Collected memory pool base size offset buffer out
      (⟨base + offset, source.ptr + b.offset, b.size⟩ :: batch) where
  targets := by
    refine List.forall_mem_cons.mpr ⟨⟨Nat.le_refl _, by simp only; omega⟩, fun t ht => ?_⟩
    have hrest := h.targets t ht
    omega
  apart := by
    refine List.pairwise_cons.mpr ⟨fun region hregion a hboth => ?_, h.apart⟩
    obtain ⟨t, ht, rfl⟩ := List.mem_map.mp hregion
    have hrest := h.targets t ht
    simp only [Transfer.target, Region.Contains] at hboth
    omega
  sources := by
    refine List.forall_mem_cons.mpr ⟨?_, h.sources⟩
    refine hinside.imp_right fun hle => ⟨source, hsource, ?_⟩
    simp only
    omega
  agrees m hm := h.agrees _ fun _ hj => Transfer.write_eq_copy hm hj

/-- Where the copy out of a memory pool does not raise, neither does the collection, and what
it collects is that copy. -/
theorem collectTransfers_of_copyRanges {memory : Bytes} {pool : List MemoryBufferMetas}
    {size : Nat} (base : Nat) (ranges : List BucketRange) :
    ∀ {offset : Nat} {buffer out : Bytes},
      copyRanges memory pool size ranges offset buffer = some out →
      ∃ batch, collectTransfers base (pool.map fun x => (x.ptr, x.size)) size ranges offset =
          some batch ∧ batch.map (·.len) = ranges.map (·.size) ∧
        Collected memory pool base size offset buffer out batch := by
  induction ranges with
  | nil =>
      intro offset buffer out h
      rw [copyRanges] at h
      split at h
      · next hdone =>
          obtain rfl := Option.some.inj h
          refine ⟨[], by rw [collectTransfers, if_pos hdone], rfl, ?_⟩
          exact ⟨by simp, List.Pairwise.nil, by simp, fun m hm => hm⟩
      · cases h
  | cons b rest ih =>
      intro offset buffer out h
      rw [copyRanges] at h
      split at h
      · next hfits =>
          cases hsource : pool[b.idx]? with
          | none =>
              rw [hsource] at h
              cases h
          | some source =>
              rw [hsource] at h
              simp only at h
              split at h
              · next hinside =>
                  obtain ⟨batch, hbatch, hlens, hcollected⟩ := ih h
                  refine ⟨⟨base + offset, source.ptr + b.offset, b.size⟩ :: batch, ?_, ?_, ?_⟩
                  · rw [collectTransfers, if_pos hfits, List.getElem?_map, hsource]
                    simp [hbatch]
                  · rw [List.map_cons, List.map_cons, hlens]
                  · exact hcollected.cons (List.mem_of_getElem? hsource) hfits hinside
              · cases h
      · cases h

/-! ## The engine -/

/-- What is behind the address of a P2P store. -/
structure Peer where
  memory : Bytes
  registered : List Region

/-- The region lies in memory that is registered. -/
def Covered (registered : List Region) (region : Region) : Prop :=
  ∃ r ∈ registered, r.start ≤ region.start ∧ region.start + region.size ≤ r.start + r.size

/-- What the engines of the reader and of the owner accept: something to read, from and into
memory that is registered. -/
structure Readable (registered remote : List Region) (batch : List Transfer) : Prop where
  ne_nil : batch ≠ []
  pos : ∀ t ∈ batch, 0 < t.len
  target : ∀ t ∈ batch, Covered registered t.target
  source : ∀ t ∈ batch, Covered remote t.source

/-- The transfer engine of a rank. -/
structure TransferEngine where
  peer : String → Option Peer
  registered : List Region
  /-- the return code, and the memory of the rank when the call returns -/
  batchTransferSyncRead : String → List Transfer → Bytes → Int × Bytes
  /-- all of an accepted batch has been read, in any order -/
  reads : ∀ {addr : String} {owner : Peer} {batch : List Transfer} (memory : Bytes),
    peer addr = some owner → Readable registered owner.registered batch →
    ∃ order, order.Perm (batch.map (Transfer.write owner.memory)) ∧
      batchTransferSyncRead addr batch memory = (0, memory.writeAll order)

/-- `_copy_to_buffer` with an `owner_rank`, for a buffer at `ptrBase`: the memory of the rank
afterwards, or `none` when it raises. -/
def copyFromOwner (globalMetas : GlobalMetas) (engine : TransferEngine) (bucket : H2DBucket)
    (ptrBase : Nat) (ownerRank : Rank) (memory : Bytes) : Option Bytes := do
  let (targetAddr, ptrs) ← (getAddrPtrs globalMetas ownerRank).toOption
  let batch ← collectTransfers ptrBase ptrs bucket.size bucket.ranges 0
  let addr ← targetAddr
  let (code, memory) := engine.batchTransferSyncRead addr batch memory
  if code = 0 then some memory else none

/-- What `_copy_to_buffer` asks the engine to read lies in memory that the owner has
registered, and goes to memory that the reader has. -/
def ReadsRegistered (globalMetas : GlobalMetas) (engine : TransferEngine) (bucket : H2DBucket)
    (ptrBase : Nat) (ownerRank : Rank) : Prop :=
  ∃ addr ptrs batch owner, getAddrPtrs globalMetas ownerRank = .ok (some addr, ptrs) ∧
    collectTransfers ptrBase ptrs bucket.size bucket.ranges 0 = some batch ∧
    engine.peer addr = some owner ∧
    ∀ t ∈ batch, Covered engine.registered t.target ∧ Covered owner.registered t.source

/-- Where the copy out of the owner's own pool makes `out`, and the memory of both sides is
registered, the RDMA read puts `out` in the buffer and leaves all other memory alone. -/
theorem copyFromOwner_eq {globalMetas : GlobalMetas} {engine : TransferEngine}
    {bucket : H2DBucket} {ptrBase : Nat} {ownerRank : Rank} {items : MemoryBufferMetaList}
    {addr : String} {remote out : Bytes} (memory : Bytes)
    (hitems : globalMetas.lookup ownerRank = some items) (haddr : items.p2pStoreAddr = some addr)
    (hpeer : engine.peer addr = some
      ⟨remote, items.memoryBufferMetasList.map fun x => ⟨x.ptr, x.size⟩⟩)
    (hcopy : copyRanges remote items.memoryBufferMetasList bucket.size bucket.ranges 0
      (fun j => memory (ptrBase + j)) = some out)
    (hne : bucket.ranges ≠ []) (hpos : ∀ range ∈ bucket.ranges, 0 < range.size)
    (hbuffer : Covered engine.registered ⟨ptrBase, bucket.size⟩) :
    ReadsRegistered globalMetas engine bucket ptrBase ownerRank ∧
    ∃ after, copyFromOwner globalMetas engine bucket ptrBase ownerRank memory = some after ∧
      (∀ j < bucket.size, after (ptrBase + j) = out j) ∧
      ∀ a, ¬ (Region.mk ptrBase bucket.size).Contains a → after a = memory a := by
  obtain ⟨batch, hbatch, hlens, hcollected⟩ := collectTransfers_of_copyRanges ptrBase _ hcopy
  have hlen : ∀ t ∈ batch, 0 < t.len := by
    intro t ht
    have hmem : t.len ∈ bucket.ranges.map (·.size) := hlens ▸ List.mem_map_of_mem ht
    obtain ⟨range, hrange, heq⟩ := List.mem_map.mp hmem
    exact heq ▸ hpos range hrange
  have hreadable : Readable engine.registered
      (items.memoryBufferMetasList.map fun x => ⟨x.ptr, x.size⟩) batch := by
    refine ⟨fun hnil => hne ?_, hlen, fun t ht => ?_, fun t ht => ?_⟩
    · rw [hnil, List.map_nil] at hlens
      exact List.map_eq_nil_iff.mp hlens.symm
    · obtain ⟨r, hr, hstart, hend⟩ := hbuffer
      have htarget := hcollected.targets t ht
      refine ⟨r, hr, ?_, ?_⟩
      · simp only [Transfer.target] at hstart ⊢
        omega
      · simp only [Transfer.target] at hend ⊢
        omega
    · obtain ⟨source, hsource, hinside⟩ :=
        (hcollected.sources t ht).resolve_left (hlen t ht).ne'
      exact ⟨⟨source.ptr, source.size⟩, List.mem_map_of_mem hsource, hinside⟩
  obtain ⟨order, hperm, hread⟩ := engine.reads memory hpeer hreadable
  have hapart : (batch.map (Transfer.write remote)).Pairwise Write.Apart := by
    have hregions := List.pairwise_map.mp hcollected.apart
    refine List.pairwise_map.mpr (hregions.imp fun hregion => ?_)
    rw [Write.Apart, Transfer.write_region, Transfer.write_region]
    exact hregion
  have hafter : memory.writeAll order = memory.writeAll (batch.map (Transfer.write remote)) :=
    (Memory.writeAll_perm hperm.symm hapart).symm
  have haddrs : getAddrPtrs globalMetas ownerRank =
      .ok (some addr, items.memoryBufferMetasList.map fun x => (x.ptr, x.size)) := by
    simp [getAddrPtrs, hitems, haddr]
  refine ⟨⟨addr, _, batch, _, haddrs, hbatch, hpeer, fun t ht =>
    ⟨hreadable.target t ht, hreadable.source t ht⟩⟩, memory.writeAll order, ?_, ?_, ?_⟩
  · simp [copyFromOwner, getAddrPtrs, hitems, haddr, Except.toOption, hbatch, hread]
  · rw [hafter]
    exact hcollected.agrees memory fun _ _ => rfl
  · intro a ha
    rw [hafter]
    refine Memory.writeAll_outside fun w hw hin => ha ?_
    obtain ⟨t, ht, rfl⟩ := List.mem_map.mp hw
    have htarget := hcollected.targets t ht
    rw [Transfer.write_region] at hin
    simp only [Transfer.target, Region.Contains] at hin ⊢
    omega

/-! ## The ranges of a plan are not empty -/

/-- The ranges recorded so far are not empty, and neither is what has been read since. -/
structure Scan.Positive (bucketSize : Nat) (scan : Scan) : Prop where
  recorded : ∀ bucket ∈ scan.closed ++ [scan.last], ∀ range ∈ bucket.ranges, 0 < range.size
  started : scan.startOffset < scan.offset ∨ scan.startOffset = 0 ∧ scan.offset = 0
  fits : scan.last.size ≤ bucketSize

theorem Scan.Positive.flush {bucketSize idx : Nat} {scan : Scan} (h : scan.Positive bucketSize)
    (hpos : scan.startOffset < scan.offset) :
    ∀ range ∈ (scan.flush idx).ranges, 0 < range.size := by
  intro range hrange
  rcases List.mem_append.mp hrange with hold | hnew
  · exact h.recorded scan.last (by simp) range hold
  · obtain rfl := List.mem_singleton.mp hnew
    exact Nat.sub_pos_of_lt hpos

theorem Scan.Positive.cut {bucketSize idx : Nat} {scan : Scan} (h : scan.Positive bucketSize) :
    ∀ bucket ∈ (scan.cut idx).closed ++ [(scan.cut idx).last], ∀ range ∈ bucket.ranges,
      0 < range.size := by
  intro bucket hbucket range hrange
  simp only [Scan.cut, List.append_assoc, List.mem_append, List.singleton_append,
    List.mem_cons, List.not_mem_nil, or_false] at hbucket
  rcases hbucket with hclosed | rfl | rfl
  · exact h.recorded bucket (List.mem_append_left _ hclosed) range hrange
  · split at hrange
    · next hread => exact h.flush (Nat.lt_of_sub_pos hread) range hrange
    · exact h.recorded scan.last (by simp) range hrange
  · simp [H2DBucket.empty] at hrange

/-- A tensor that closes a bucket is not empty. -/
theorem Scan.Positive.addMeta {bucketSize idx : Nat} {scan : Scan} (h : scan.Positive bucketSize)
    {param : ParameterMeta} (hparam : param.alignedSize ≤ bucketSize) :
    (scan.addMeta bucketSize idx param).Positive bucketSize := by
  have hfits := h.fits
  have hcut := @Scan.Positive.cut bucketSize idx scan h
  unfold Scan.addMeta
  simp only
  split
  · next hfull =>
      refine ⟨?_, .inl ?_, ?_⟩
      · intro bucket hbucket range hrange
        rcases List.mem_append.mp hbucket with hclosed | hlast
        · exact hcut bucket (List.mem_append_left _ hclosed) range hrange
        · obtain rfl := List.mem_singleton.mp hlast
          exact hcut (scan.cut idx).last (by simp) range hrange
      · simp only [Scan.cut]
        omega
      · simp only [Scan.cut, H2DBucket.empty]
        omega
  · refine ⟨?_, ?_, ?_⟩
    · intro bucket hbucket range hrange
      rcases List.mem_append.mp hbucket with hclosed | hlast
      · exact h.recorded bucket (List.mem_append_left _ hclosed) range hrange
      · obtain rfl := List.mem_singleton.mp hlast
        exact h.recorded scan.last (by simp) range hrange
    · have hstarted := h.started
      simp only
      omega
    · simp only
      omega

theorem Scan.Positive.foldl_addMeta {bucketSize idx : Nat} (params : List ParameterMeta) :
    ∀ {scan : Scan}, scan.Positive bucketSize → (∀ param ∈ params, param.alignedSize ≤ bucketSize) →
      (params.foldl (Scan.addMeta bucketSize idx) scan).Positive bucketSize ∧
        (params.foldl (Scan.addMeta bucketSize idx) scan).offset =
          scan.offset + totalSize params := by
  induction params with
  | nil => exact fun h _ => ⟨h, rfl⟩
  | cons param rest ih =>
      intro scan h hparams
      obtain ⟨hparam, hrest⟩ := List.forall_mem_cons.mp hparams
      have hadded := @Scan.Positive.addMeta bucketSize idx scan h param hparam
      obtain ⟨hpositive, hoffset⟩ := ih hadded hrest
      refine ⟨hpositive, hoffset.trans ?_⟩
      rw [Scan.addMeta_offset]
      simp [totalSize, Nat.add_assoc]

/-- The last range of a buffer is not empty, as the buffer is not. -/
theorem Scan.Positive.addBuffer {bucketSize : Nat} {scan : Scan} (h : scan.Positive bucketSize)
    {buffer : MemoryBufferMetas × Nat} (hpos : 0 < totalSize buffer.1.metas)
    (hfits : ∀ param ∈ buffer.1.metas, param.alignedSize ≤ bucketSize) :
    (scan.addBuffer bucketSize buffer).Positive bucketSize := by
  have hstart : ({ scan with startOffset := 0, offset := 0 } : Scan).Positive bucketSize :=
    ⟨h.recorded, .inr ⟨rfl, rfl⟩, h.fits⟩
  obtain ⟨hread, hoffset⟩ :=
    @Scan.Positive.foldl_addMeta bucketSize buffer.2 buffer.1.metas _ hstart hfits
  have hlast := hread.started.resolve_right fun hzero => by omega
  refine ⟨?_, hread.started, hread.fits⟩
  intro bucket hbucket range hrange
  rcases List.mem_append.mp hbucket with hclosed | hflushed
  · exact hread.recorded bucket (List.mem_append_left _ hclosed) range hrange
  · obtain rfl := List.mem_singleton.mp hflushed
    exact hread.flush hlast range hrange

/-- No range of the plan of buffers that are not empty is empty. -/
theorem ownerPlan_positive {bucketSize : Nat} {buffers : List MemoryBufferMetas}
    (hfits : ∀ source ∈ buffers, ∀ param ∈ source.metas, param.alignedSize ≤ bucketSize)
    (hpos : ∀ source ∈ buffers, 0 < totalSize source.metas) :
    ∀ bucket ∈ ownerPlan bucketSize buffers, ∀ range ∈ bucket.ranges, 0 < range.size := by
  have hfold : ∀ (numbered : List (MemoryBufferMetas × Nat)) (scan : Scan),
      (∀ buffer ∈ numbered, buffer.1 ∈ buffers) → scan.Positive bucketSize →
      (numbered.foldl (Scan.addBuffer bucketSize) scan).Positive bucketSize := by
    intro numbered
    induction numbered with
    | nil => exact fun _ _ h => h
    | cons buffer rest ih =>
        intro scan hnumbered h
        obtain ⟨hbuffer, hrest⟩ := List.forall_mem_cons.mp hnumbered
        exact ih _ hrest (h.addBuffer (hpos _ hbuffer) (hfits _ hbuffer))
  have hempty : (⟨[], .empty, 0, 0⟩ : Scan).Positive bucketSize :=
    ⟨by simp [H2DBucket.empty], .inr ⟨rfl, rfl⟩, Nat.zero_le _⟩
  refine (hfold buffers.zipIdx _ (fun buffer hbuffer => ?_) hempty).recorded
  exact List.fst_mem_of_mem_zipIdx hbuffer

/-! ## The copy and the buffer it finds -/

/-- A copy leaves the buffer alone behind the bucket. -/
theorem copyRanges_above {memory : Bytes} {pool : List MemoryBufferMetas} {size : Nat}
    (ranges : List BucketRange) :
    ∀ {offset : Nat} {buffer out : Bytes},
      copyRanges memory pool size ranges offset buffer = some out →
      ∀ a, size ≤ a → out a = buffer a := by
  induction ranges with
  | nil =>
      intro offset buffer out h a _
      rw [copyRanges] at h
      split at h
      · rw [Option.some.inj h]
      · cases h
  | cons b rest ih =>
      intro offset buffer out h a ha
      rw [copyRanges] at h
      split at h
      · next hfits =>
          cases hsource : pool[b.idx]? with
          | none =>
              rw [hsource] at h
              cases h
          | some source =>
              rw [hsource] at h
              simp only at h
              split at h
              · rw [ih h a ha]
                refine Memory.copy_outside fun hcontains => ?_
                simp only [Region.Contains] at hcontains
                omega
              · cases h
      · cases h

/-- What is copied does not depend on what was in the buffer. -/
theorem copyRanges_congr {memory : Bytes} {pool : List MemoryBufferMetas} {size : Nat}
    {ranges : List BucketRange} (hin : ∀ range ∈ ranges, InPool pool range)
    (hsize : (ranges.map (·.size)).sum = size) (buffer buffer' : Bytes) :
    ∃ out out', copyRanges memory pool size ranges 0 buffer = some out ∧
      copyRanges memory pool size ranges 0 buffer' = some out' ∧ ∀ j < size, out j = out' j := by
  have hsum : 0 + (ranges.map (·.size)).sum = size := by rw [Nat.zero_add, hsize]
  obtain ⟨out, hout, -, hbytes⟩ := @copyRanges_ok memory _ _ ranges 0 buffer hin hsum
  obtain ⟨out', hout', -, hbytes'⟩ := @copyRanges_ok memory _ _ ranges 0 buffer' hin hsum
  refine ⟨out, out', hout, hout', fun j hj => ?_⟩
  have hlt : j < (rangeAddresses ranges).length := by rwa [length_rangeAddresses, hsize]
  cases haddress : (rangeAddresses ranges)[j] with
  | mk idx place =>
      have hget := List.getElem?_eq_some_iff.mpr ⟨hlt, haddress⟩
      rw [← Nat.zero_add j, hbytes j idx place hget, hbytes' j idx place hget]

end CheckpointEngine.Plan

namespace CheckpointEngine.Update

open CheckpointEngine.Foundation CheckpointEngine.Plan

/-! ## Updates that read from the owners -/

/-- What the ranks of an update have for their RDMA reads. -/
structure RemoteReads where
  engine : Rank → TransferEngine
  /-- where the tensor lies that is registered as `__ipc_buffer__`: `h2d_buffer`, or `buffer`
  where there is none -/
  ipcBuffer : Rank → Nat
  /-- the turn in which a rank fills its own bucket of a row -/
  gidx : Rank → Nat → Nat
  /-- the memory of the rank before that -/
  memory : Rank → Nat → Bytes

namespace RemoteReads

variable (x : RemoteReads) (d : Deployment)

/-- `ptr_base`. -/
def ptrBase (rank : Rank) (i : Nat) : Nat :=
  if d.disableH2dBuffer then x.ipcBuffer rank + x.gidx rank i % 2 * d.bucketSize
  else x.ipcBuffer rank

/-- The bytes of the rank's own bucket of row `i`, once they have been read. -/
def copyToBuffer (buckets : List Planned) (rank : Rank) (i : Nat) : Option Bytes :=
  match (receiverRankBuckets rank buckets)[i]? with
  | some (owner, bucket) =>
      (copyFromOwner d.globalMetas (x.engine rank) bucket (x.ptrBase d rank i) owner
        (x.memory rank i)).map fun after j =>
          if j < bucket.size then after (x.ptrBase d rank i + j) else 0
  | none => some fun _ => 0 -- there is no such bucket, and no call

/-- Every owner has registered its pool with the engine at its address, and every rank of
the update its `__ipc_buffer__`. -/
structure Connects : Prop where
  published : ∀ owner ∈ d.globalMetas, ∃ addr, owner.2.p2pStoreAddr = some addr ∧
    ∀ rank ∈ d.ranks, (x.engine rank).peer addr = some
      ⟨d.hostMemory owner.1, owner.2.memoryBufferMetasList.map fun s => ⟨s.ptr, s.size⟩⟩
  pos : ∀ owner ∈ d.globalMetas, ∀ source ∈ owner.2.memoryBufferMetasList, 0 < source.size
  registered : ∀ rank ∈ d.ranks,
    ⟨x.ipcBuffer rank, if d.disableH2dBuffer then d.bucketSize * 2 else d.bucketSize⟩ ∈
      (x.engine rank).registered

end RemoteReads

section Reading

variable {d : Deployment} {x : RemoteReads}

/-- The RDMA read of an owner's bucket leaves in the buffer what the owner's own copy makes of
it, and all other memory as it was. -/
theorem RemoteReads.Connects.copyFromOwner (hconnects : x.Connects d) (h : d.WellFormed)
    {rank : Rank} (hrank : rank ∈ d.ranks) {b : Rank × H2DBucket} (hb : b ∈ d.owned) (i : Nat)
    (memory : Bytes) :
    ReadsRegistered d.globalMetas (x.engine rank) b.2 (x.ptrBase d rank i) b.1 ∧
    ∃ after bytes, Plan.copyFromOwner d.globalMetas (x.engine rank) b.2 (x.ptrBase d rank i) b.1
        memory = some after ∧ d.fetch b.1 b.2 = some bytes ∧
      (∀ j < b.2.size, after (x.ptrBase d rank i + j) = bytes j) ∧
      (∀ j, b.2.size ≤ j → bytes j = 0) ∧
      ∀ a, ¬ (Region.mk (x.ptrBase d rank i) b.2.size).Contains a → after a = memory a := by
  obtain ⟨owner, howner, hkey, hbucket⟩ := Deployment.mem_owned hb
  obtain ⟨addr, haddr, hpeer⟩ := hconnects.published owner howner
  have hplannable := h.input.plannable owner howner
  have hwithin := scanOwner_within d.bucketSize (fun source hsource =>
    (h.tiles owner howner source hsource).le) b.2 hbucket
  have hpositive := ownerPlan_positive hplannable.fits (fun source hsource => by
    rw [h.tiles owner howner source hsource]
    exact hconnects.pos owner howner source hsource) b.2 hbucket
  obtain ⟨bin, hbin, hcarries⟩ := exists_of_forall₂
    (scanOwner_carries d.bucketSize owner.2.memoryBufferMetasList) hbucket
  obtain ⟨hload, hfits⟩ := hplannable.bin_load bin hbin
  rw [← hcarries.size_eq] at hload hfits
  have hsum := hcarries.size_eq_ranges
  obtain ⟨out, bytes, hout, hbytes, hsame⟩ := @copyRanges_congr (d.hostMemory owner.1) _ _ _
    hwithin hsum.symm (fun j => memory (x.ptrBase d rank i + j)) fun _ => 0
  have hne : b.2.ranges ≠ [] := by
    intro hnil
    rw [hnil] at hsum
    simp only [List.map_nil, List.sum_nil] at hsum
    omega
  have hcovered : Covered (x.engine rank).registered ⟨x.ptrBase d rank i, b.2.size⟩ := by
    refine ⟨_, hconnects.registered rank hrank, ?_⟩
    have hhalf : x.gidx rank i % 2 * d.bucketSize ≤ d.bucketSize := by
      rcases Nat.mod_two_eq_zero_or_one (x.gidx rank i) with hpar | hpar <;> simp [hpar]
    rw [RemoteReads.ptrBase]
    split
    · simp only
      omega
    · simp only
      omega
  obtain ⟨hregistered, after, hafter, hread, hframe⟩ := copyFromOwner_eq memory
    (lookup_of_mem h.input.keys_nodup howner) haddr (hpeer rank hrank) hout hne hpositive hcovered
  refine ⟨hkey ▸ hregistered, after, bytes, hkey ▸ hafter, ?_, fun j hj => ?_,
    copyRanges_above _ hbytes, hframe⟩
  · rw [Deployment.fetch, hkey, Deployment.pool_eq h howner]
    exact hbytes
  · rw [hread j hj, hsame j hj]

/-- A plan has no buckets for a rank that takes no part. -/
theorem receiverRankBuckets_eq_nil {buckets : List Planned} {ranks : List Rank}
    (hmem : ∀ b ∈ buckets, b.1 ∈ ranks) {rank : Rank} (hrank : rank ∉ ranks) :
    receiverRankBuckets rank buckets = [] := by
  rw [receiverRankBuckets, List.map_eq_nil_iff, List.filter_eq_nil_iff]
  intro b hb heq
  exact hrank (of_decide_eq_true heq ▸ hmem b hb)

/-- What the ranks read from the owners is what `_copy_to_buffer` is to make of the buckets. -/
theorem RemoteReads.Connects.copyToBuffer_eq (hconnects : x.Connects d) (h : d.WellFormed)
    (hranks : d.ranks ≠ []) {plan : List Planned}
    (hplan : genH2dBuckets d.globalMetas d.bucketSize d.localTopo d.remoteTopo d.ranks =
      .ok (some plan)) : x.copyToBuffer d plan = d.copyToBuffer plan := by
  obtain ⟨found, hok, hperm, hmem, -⟩ := h.plan_ok
  obtain rfl : plan = found := Option.some.inj (Except.ok.inj (hplan.symm.trans hok))
  have hparticipants : d.participants = d.ranks := by
    rw [Deployment.participants, if_neg (by rwa [List.isEmpty_iff])]
  rw [hparticipants] at hmem
  funext rank i
  rw [RemoteReads.copyToBuffer, Deployment.copyToBuffer]
  cases hb : (receiverRankBuckets rank plan)[i]? with
  | none => rfl
  | some b =>
      have hrank : rank ∈ d.ranks := by
        by_contra hnot
        rw [receiverRankBuckets_eq_nil hmem hnot, List.getElem?_nil] at hb
        cases hb
      obtain ⟨planned, hplanned, rfl⟩ := List.mem_map.mp (List.mem_of_getElem? hb)
      have howned := hperm.mem_iff.mp (List.mem_map_of_mem (List.mem_of_mem_filter hplanned))
      obtain ⟨-, after, bytes, hafter, hbytes, hread, habove, -⟩ :=
        hconnects.copyFromOwner h hrank howned i (x.memory rank i)
      simp only [hafter, hbytes, Option.map_some, List.isEmpty_iff, if_neg hranks]
      congr 1
      funext j
      split
      · next hlt => exact hread j hlt
      · next hge => exact (habove j (Nat.not_lt.mp hge)).symm

end Reading

/-- The update is the one the deployment leads to, its copies are RDMA reads, and nothing
raises in it but what they raise. -/
structure RunsRemotely (d : Deployment) (x : RemoteReads) (u : Update) : Prop where
  ranks_eq : u.ranks = d.participants
  bucketSize_eq : u.bucketSize = d.bucketSize
  disable_eq : u.disableH2dBuffer = d.disableH2dBuffer
  plan_eq : genH2dBuckets d.globalMetas d.bucketSize d.localTopo d.remoteTopo d.ranks =
    .ok (some u.buckets)
  copy_eq : u.env.copyToBuffer = x.copyToBuffer d u.buckets
  faultFree : u.FaultFree

theorem RunsRemotely.runs {d : Deployment} {x : RemoteReads} {u : Update}
    (hrun : RunsRemotely d x u) (h : d.WellFormed) (hranks : d.ranks ≠ [])
    (hconnects : x.Connects d) : d.Runs u where
  ranks_eq := hrun.ranks_eq
  bucketSize_eq := hrun.bucketSize_eq
  disable_eq := hrun.disable_eq
  plan_eq := hrun.plan_eq
  copy_eq := hrun.copy_eq.trans (hconnects.copyToBuffer_eq h hranks hrun.plan_eq)
  faultFree := hrun.faultFree

/-- A deployment whose engines reach the owners leads to an update that reads from them. -/
theorem exists_runsRemotely {d : Deployment} {x : RemoteReads} (h : d.WellFormed)
    (hranks : d.ranks ≠ []) (hconnects : x.Connects d) : ∃ u, RunsRemotely d x u := by
  obtain ⟨u, hrun⟩ := h.exists_runs
  exact ⟨u,
    { ranks_eq := hrun.ranks_eq
      bucketSize_eq := hrun.bucketSize_eq
      disable_eq := hrun.disable_eq
      plan_eq := hrun.plan_eq
      copy_eq := hrun.copy_eq.trans (hconnects.copyToBuffer_eq h hranks hrun.plan_eq).symm
      faultFree := hrun.faultFree }⟩

/-! ## Delivery -/

/-- The update comes to an end, and then every worker has been handed these tensors, each
once. -/
structure Hands (u : Update) (weights : List Weight) : Prop where
  terminates : ∀ run : Nat → State, run 0 = u.initial →
    ¬ ∀ n, u.machine.Next (run n) (run (n + 1))
  handed : ∀ s, u.Reachable s → u.Final s → ∀ rank ∈ u.ranks,
    (s rank).server.pc = .left .returned ∧ ((s rank).worker.handed.flatten).Perm weights

theorem Hands.of_perm {u : Update} {weights weights' : List Weight} (h : Hands u weights)
    (hperm : weights.Perm weights') : Hands u weights' where
  terminates := h.terminates
  handed s hs hfinal rank hrank :=
    ⟨(h.handed s hs hfinal rank hrank).1, (h.handed s hs hfinal rank hrank).2.trans hperm⟩

/-- An update hands on what its deployment holds. -/
theorem hands_of_runs {d : Deployment} {u : Update} (h : d.WellFormed) (hrun : d.Runs u) :
    Hands u d.weights := by
  have hcopies := hrun.copiesSucceed h
  have honly := hrun.faultFree.onlyWorkersFail hcopies
  constructor
  · intro run hstart
    exact (machine_descends u).no_infinite_run run (hstart ▸ Machine.Reachable.init)
  · intro s hs hfinal rank hrank
    have hpc := final_left hs hfinal honly.copies honly.start honly.quiet rank hrank
    rw [hrun.faultFree.outcome] at hpc
    refine ⟨hpc, hrun.handed_perm h (handedInv hcopies hs rank hrank) ?_⟩
    have hinv := rankInv hs rank hrank
    have hposition := hinv.worker.position
    rw [hinv.returned_worker (by rw [hpc]; rfl)] at hposition
    have hlength := hinv.worker.handed
    have hreplies := hposition.2.1
    omega

/-- An engine that reads the last piece first. -/
def backwardEngine (registered : List Region) (peer : String → Option Peer) : TransferEngine where
  peer
  registered
  batchTransferSyncRead addr batch memory :=
    match peer addr with
    | none => (-1, memory)
    | some owner => (0, memory.writeAll (batch.map (Transfer.write owner.memory)).reverse)
  reads := by
    intro addr owner batch memory howner _
    exact ⟨_, List.reverse_perm _, by rw [howner]⟩

end CheckpointEngine.Update
