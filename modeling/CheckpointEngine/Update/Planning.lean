/-
  `Update.Planning`: whether what the ranks have registered can be planned.

  Registration accepts tensors without elements and files without tensors, and
  `gather_metas` drops only the ranks without any buffers.  The planner wants every owner
  that is left to have bytes, and bytes in its last bucket.  The last tensor of a file that
  is pinned in place may end before it starts; sizes are integers here.
-/
import CheckpointEngine.Plan.CopyAssertions
import CheckpointEngine.Plan.MetasLoading
import CheckpointEngine.Registry.Pools
import CheckpointEngine.Update.BucketSize

set_option autoImplicit false

namespace CheckpointEngine.Update

open CheckpointEngine.Foundation CheckpointEngine.Plan CheckpointEngine.Registry

/-! ## What is registered -/

/-- Every buffer is filled by its tensors. -/
def PoolFilled (pool : List (MemoryBuffer Int)) : Prop := ∀ source ∈ announced pool, Filled source

/-- Where an entry follows, an entry does not end before it starts. -/
theorem parseHeader_nonneg {offset last : Int} {entries : List (HeaderEntry Int)}
    {metas : List (ParameterMeta Int)} (hsorted : entries.Pairwise fun x y => x.start ≤ y.start)
    (h : parseHeader offset entries = .ok (last, metas)) :
    ∀ param ∈ metas.dropLast, 0 ≤ param.alignedSize := by
  induction entries generalizing offset metas with
  | nil =>
      obtain ⟨rfl, rfl⟩ := Prod.mk.inj (Except.ok.inj h)
      simp
  | cons entry rest ih =>
      obtain ⟨hfirst, hsorted⟩ := List.pairwise_cons.mp hsorted
      unfold parseHeader at h
      split at h
      · obtain ⟨⟨last', metas'⟩, hrest, h⟩ := bind_eq_ok.mp h
        obtain ⟨rfl, rfl⟩ := Prod.mk.inj (Except.ok.inj h)
        have hmetas := ih hsorted hrest
        cases rest with
        | nil =>
            obtain ⟨-, rfl⟩ := Prod.mk.inj (Except.ok.inj hrest)
            simp
        | cons next rest =>
            unfold parseHeader at hrest
            split at hrest
            · rename_i hstart
              obtain ⟨⟨_, metas''⟩, _, hrest⟩ := bind_eq_ok.mp hrest
              obtain ⟨rfl, rfl⟩ := Prod.mk.inj (Except.ok.inj hrest)
              rw [List.dropLast_cons_cons, List.forall_mem_cons]
              refine ⟨?_, hmetas⟩
              -- the entry ends where the next one starts, and that is not before it
              have hnext := hfirst next List.mem_cons_self
              have hstop := entry.start_add_size
              simp only
              omega
            · cases hrest
      · cases h

theorem sortHeader_sorted (header : List (HeaderEntry Int)) :
    (sortHeader header).Pairwise fun x y => x.start ≤ y.start := by
  have htotal : Std.Total fun x y : HeaderEntry Int =>
      x.start < y.start ∨ x.start = y.start ∧ x.stop ≤ y.stop := ⟨fun x y => by omega⟩
  have htrans : IsTrans (HeaderEntry Int) fun x y =>
      x.start < y.start ∨ x.start = y.start ∧ x.stop ≤ y.stop := ⟨fun x y z => by omega⟩
  have hsorted : (sortHeader header).Pairwise fun x y =>
      x.start < y.start ∨ x.start = y.start ∧ x.stop ≤ y.stop :=
    List.pairwise_insertionSort _ header
  exact hsorted.imp fun {x y} hxy => by omega

/-- What is registered fills its buffers. -/
theorem registerCheckpoint_filled {host : Host Int} {files : List String}
    {namedTensors : List Parameter} {shared loaded : List (MemoryBuffer Int)} {inplacePin : Bool}
    (h : registerCheckpoint host files namedTensors shared inplacePin = .ok loaded) :
    PoolFilled loaded := by
  refine List.forall_mem_map.mpr (registerCheckpoint_forall (fun hnormal b hb => ?_)
    (fun hfile => ?_) h)
  · obtain ⟨parameters, bucket, hbucket, -, -, hsize, hmetas⟩ := normalPinMemory_bucket hnormal hb
    have hpacked : (bucket.metas.map (·.alignedSize)).sum = bucket.size ∧
        ∀ param ∈ bucket.metas, 0 ≤ param.alignedSize := by
      refine @packBuckets_forall Int _ (fun bucket =>
        (bucket.metas.map (·.alignedSize)).sum = bucket.size ∧
          ∀ param ∈ bucket.metas, 0 ≤ param.alignedSize) ⟨rfl, nofun⟩ ?_ parameters bucket hbucket
      rintro bucket param ⟨hsum, hnonneg⟩
      refine ⟨by simp [hsum], fun other hother => ?_⟩
      rcases List.mem_append.mp hother with hold | hnew
      · exact hnonneg other hold
      · obtain rfl := List.mem_singleton.mp hnew
        exact Int.natCast_nonneg _
    refine ⟨?_, fun param hparam => ?_⟩
    · rw [hsize, hmetas]
      exact hpacked.1
    · rw [hmetas] at hparam
      exact hpacked.2 param (List.dropLast_subset _ hparam)
  · obtain ⟨file, -, hparse, -, hsize⟩ := parseAndPin_parsed hfile
    have hsum := parseHeader_sum hparse
    rw [Int.zero_add] at hsum
    rw [hsize]
    exact ⟨hsum, parseHeader_nonneg (sortHeader_sorted _) hparse⟩

/-! ## From the ranks to the metas -/

/-- A rank that takes part in a gather, with the server it has after any calls. -/
structure Registrant where
  p2p : Bool
  server : ParameterServer Int
  reachable : (ParameterServer.machine p2p).Reachable server
  p2pStoreAddr : Option String
  hostIp : String
  deviceUuid : String
  rdmaDevice : String

/-- The pool that `gather_metas` finds; a checkpoint that is not registered has none. -/
def Registrant.pool (r : Registrant) (checkpointName : String) :
    Except PyError (List (MemoryBuffer Int)) :=
  match r.server.getMemoryPool checkpointName with
  | .error (.runtimeError _) => .ok []
  | pool => pool

/-- The record of a rank. -/
def Registrant.record (checkpointName : String) (r : Registrant) :
    Except PyError (DataToGather Int) := do
  let memoryPool ← r.pool checkpointName
  return ⟨⟨r.p2pStoreAddr, announced memoryPool, r.rdmaDevice⟩, r.hostIp, r.deviceUuid⟩

/-- The buffers of a pool that is registered are filled. -/
theorem Registrant.pool_filled {r : Registrant} {name : String} {pool : List (MemoryBuffer Int)}
    (h : r.pool name = .ok pool) : PoolFilled pool := by
  unfold Registrant.pool at h
  split at h
  · obtain rfl := Except.ok.inj h
    exact nofun
  · obtain ⟨hpool, _⟩ := ParameterServer.getMemoryPool_ok h
    exact ParameterServer.allPools_reachable ⟨nofun, registerCheckpoint_filled⟩ r.reachable _ _
      hpool

/-- Rank after rank, the records come from the pools. -/
theorem records_forall₂ {name : String} {registrants : List Registrant}
    {records : List (DataToGather Int)}
    (h : registrants.mapM (Registrant.record name) = .ok records) :
    List.Forall₂ (fun r (data : DataToGather Int) => ∃ pool, r.pool name = .ok pool ∧
      data.memoryBufferMetasList = announced pool) registrants records := by
  induction registrants generalizing records with
  | nil =>
      obtain rfl : [] = records := Except.ok.inj h
      exact .nil
  | cons r rest ih =>
      rw [List.mapM_cons] at h
      obtain ⟨data, hdata, h⟩ := bind_eq_ok.mp h
      obtain ⟨others, hothers, h⟩ := bind_eq_ok.mp h
      obtain rfl : data :: others = records := Except.ok.inj h
      obtain ⟨pool, hpool, hdata⟩ := bind_eq_ok.mp hdata
      obtain rfl := Except.ok.inj hdata
      exact .cons ⟨pool, hpool, rfl⟩ (ih hothers)

/-- The owners are the ranks with buffers. -/
theorem mem_gathered {Size : Type} {s : ServerMetas Size} {records : List (DataToGather Size)}
    {items : MemoryBufferMetaList Size} :
    (∃ i, (i, items) ∈ (s.gatherMetas records).currentGlobalParameterMetas) ↔
      ∃ data ∈ records, data.memoryBufferMetasList ≠ [] ∧ data.toMemoryBufferMetaList = items := by
  simp only [ServerMetas.gatherMetas, List.mem_filterMap, Option.ite_none_left_eq_some]
  constructor
  · rintro ⟨i, ⟨data, j⟩, hmem, hne, heq⟩
    obtain ⟨-, rfl⟩ := Prod.mk.inj (Option.some.inj heq)
    exact ⟨data, (List.mem_zipIdx_iff_getElem?.mp hmem) |> List.mem_of_getElem?,
      by simpa using hne, rfl⟩
  · rintro ⟨data, hmem, hne, rfl⟩
    obtain ⟨j, hj⟩ := List.getElem?_of_mem hmem
    exact ⟨j, (data, j), List.mk_mem_zipIdx_iff_getElem?.mpr hj, by simpa using hne, rfl⟩

/-- What holds of every owner holds of every rank that has buffers. -/
theorem forall_gathered_iff {name : String} {registrants : List Registrant}
    {records : List (DataToGather Int)} {s : ServerMetas Int}
    (h : registrants.mapM (Registrant.record name) = .ok records)
    {P : List (MemoryBufferMetas Int) → Prop} :
    (∀ owner ∈ (s.gatherMetas records).currentGlobalParameterMetas,
        P owner.2.memoryBufferMetasList) ↔
      ∀ r ∈ registrants, ∀ pool, r.pool name = .ok pool → pool ≠ [] → P (announced pool) := by
  constructor
  · intro howners r hr pool hpool hne
    obtain ⟨data, hdata, pool', hpool', hannounced⟩ := exists_of_forall₂ (records_forall₂ h) hr
    obtain rfl : pool = pool' := Except.ok.inj (hpool.symm.trans hpool')
    have hsome : data.memoryBufferMetasList ≠ [] := by
      rw [hannounced]
      exact mt List.map_eq_nil_iff.mp hne
    obtain ⟨i, howner⟩ := (@mem_gathered _ s records data.toMemoryBufferMetaList).mpr
      ⟨data, hdata, hsome, rfl⟩
    rw [← hannounced]
    exact howners _ howner
  · intro hranks owner howner
    obtain ⟨data, hdata, hne, heq⟩ := mem_gathered.mp ⟨owner.1, howner⟩
    obtain ⟨r, hr, pool, hpool, hannounced⟩ := exists_of_forall₂ (records_forall₂ h).flip hdata
    rw [← heq, hannounced]
    refine hranks r hr pool hpool ?_
    rintro rfl
    exact hne hannounced

/-! ## Planning and copying -/

/-- `_detect_bucket_size` behind its `all_reduce`; its `max_tensor_bytes` starts from 0. -/
def detectBucketSizeOf (globalMetas : GlobalMetas Int) (freeBytes maxBytes : Nat)
    (disableH2dBuffer : Bool) : Except PyError (Nat × Bool) :=
  bucketSizeFor (maxTensorBytes globalMetas).toNat freeBytes maxBytes disableH2dBuffer

/-- The planner's assertion holds, and those of `_copy_to_buffer` hold for every bucket of every
plan of the server. -/
structure PlannedAndCopied (s : ServerMetas Int) (bucketSize : Nat) : Prop where
  planned : ∃ buckets, allBuckets (bucketSize : Int) s.currentGlobalParameterMetas = .ok buckets
  copied : ∀ ranks planned, genH2dBuckets s.currentGlobalParameterMetas (bucketSize : Int)
      s.localRdmaDevices s.remoteRdmaDevices ranks = .ok (some planned) →
    ∀ receiver owner bucket, (receiver, owner, bucket) ∈ planned →
      assertRanges bucket.size bucket.ranges 0 = .ok ()

/-- An owner has bytes, and where one of its tensors ends before it starts, some of what does
not fit into the buckets before. -/
structure LeavesBytes (bucketSize : Nat) (buffers : List (MemoryBufferMetas Int)) : Prop where
  bytes : ∃ buffer ∈ buffers, 0 < buffer.size
  rest : (∃ size ∈ ownerSizes buffers, size < 0) → 0 < sizeSinceCut bucketSize (ownerSizes buffers)

section Planning

variable {bucketSize : Nat}

theorem leavesBytes_iff {buffers : List (MemoryBufferMetas Int)}
    (hfilled : ∀ buffer ∈ buffers, Filled buffer)
    (hfits : ∀ size ∈ ownerSizes buffers, size ≤ bucketSize) :
    LeavesBytes bucketSize buffers ↔ 0 < sizeSinceCut bucketSize (ownerSizes buffers) := by
  constructor
  · rintro ⟨⟨buffer, hbuffer, hpos⟩, hrest⟩
    by_cases hneg : ∃ size ∈ ownerSizes buffers, size < 0
    · exact hrest hneg
    · push Not at hneg
      unfold sizeSinceCut
      rw [foldl_countSize_pos_iff hfits hneg (Int.le_refl 0) (Int.natCast_nonneg _), Int.zero_add,
        ownerSizes_sum hfilled]
      have hle : (buffer.size : Int) ≤ (buffers.map fun buffer => (buffer.size : Int)).sum := by
        refine List.single_le_sum (List.forall_mem_map.mpr fun _ _ => Int.natCast_nonneg _) _ ?_
        exact List.mem_map_of_mem hbuffer
      omega
  · intro hpos
    exact ⟨exists_pos_of_sizeSinceCut hfilled hpos, fun _ => hpos⟩

/-- No tensor exceeds a detected bucket size. -/
theorem detectBucketSizeOf_fits {globalMetas : GlobalMetas Int} {freeBytes maxBytes : Nat}
    {disableH2dBuffer disabled : Bool}
    (h : detectBucketSizeOf globalMetas freeBytes maxBytes disableH2dBuffer =
      .ok (bucketSize, disabled)) :
    ∀ owner ∈ globalMetas, ∀ size ∈ ownerSizes owner.2.memoryBufferMetasList,
      size ≤ bucketSize := by
  intro owner howner size hsize
  obtain ⟨param, hparam, rfl⟩ := List.mem_map.mp hsize
  have hmax : param.alignedSize ≤ maxTensorBytes globalMetas :=
    (foldl_max_le_iff _ _ 0).mp le_rfl |>.2 param (List.mem_flatMap.mpr ⟨owner, howner, hparam⟩)
  have hle := bucketSizeFor_le h
  omega

/-- A plan holds buckets of the planner. -/
theorem mem_genH2dBuckets {Size : Type} [OfNat Size 0] [Add Size] [Sub Size] [LT Size]
    [DecidableLT Size] [ToString Size] {metas : GlobalMetas Size} {bucketSize : Size}
    {localTopo remoteTopo : Topology} {ranks : List Rank}
    {buckets : List (Rank × H2DBucket Size)} {planned : List (Rank × Rank × H2DBucket Size)}
    (hok : allBuckets bucketSize metas = .ok buckets)
    (hremote : ∀ b ∈ buckets, (rankToRdmaDevice remoteTopo b.1).isSome)
    (h : genH2dBuckets metas bucketSize localTopo remoteTopo ranks = .ok (some planned))
    {x : Rank × Rank × H2DBucket Size} (hx : x ∈ planned) : x.2 ∈ buckets := by
  rw [genH2dBuckets, hok] at h
  change (if ranks.isEmpty then _ else _) = _ at h
  split at h
  · obtain rfl := Option.some.inj (Except.ok.inj h)
    obtain ⟨b, hb, rfl⟩ := List.mem_map.mp hx
    exact hb
  · obtain ⟨receivers, _, hassigned⟩ := assignReceiverRanks_returned hremote h
    obtain ⟨hmap, _⟩ := assignWhile_spec hassigned
    have hmem : x.2 ∈ planned.map Prod.snd := List.mem_map_of_mem hx
    rw [hmap] at hmem
    exact (flattenedBuckets_perm remoteTopo buckets).mem_iff.mp hmem

end Planning

/-- After a gather, with a bucket size that is detected, the planner and the copies get through
exactly if every rank that has registered buffers leaves bytes for its last bucket. -/
theorem planning_never_fails_iff {name : String} {registrants : List Registrant}
    {records : List (DataToGather Int)} (s : ServerMetas Int)
    (h : registrants.mapM (Registrant.record name) = .ok records)
    {freeBytes maxBytes bucketSize : Nat} {disableH2dBuffer disabled : Bool}
    (hdetect : detectBucketSizeOf (s.gatherMetas records).currentGlobalParameterMetas freeBytes
      maxBytes disableH2dBuffer = .ok (bucketSize, disabled)) :
    PlannedAndCopied (s.gatherMetas records) bucketSize ↔
      ∀ r ∈ registrants, ∀ pool, r.pool name = .ok pool → pool ≠ [] →
        LeavesBytes bucketSize (announced pool) := by
  have hfits := detectBucketSizeOf_fits hdetect
  have hfilled : ∀ owner ∈ (s.gatherMetas records).currentGlobalParameterMetas,
      ∀ buffer ∈ owner.2.memoryBufferMetasList, Filled buffer :=
    (@forall_gathered_iff name registrants records s h fun buffers =>
      ∀ buffer ∈ buffers, Filled buffer).mpr fun r _ pool hpool _ => Registrant.pool_filled hpool
  rw [← @forall_gathered_iff name registrants records s h]
  have hplanned : (∃ buckets, allBuckets (bucketSize : Int)
      (s.gatherMetas records).currentGlobalParameterMetas = .ok buckets) ↔
      ∀ owner ∈ (s.gatherMetas records).currentGlobalParameterMetas,
        LeavesBytes bucketSize owner.2.memoryBufferMetasList := by
    rw [allBuckets_ok_iff]
    exact forall₂_congr fun owner howner =>
      (leavesBytes_iff (hfilled owner howner) (hfits owner howner)).symm
  rw [← hplanned]
  refine ⟨PlannedAndCopied.planned, fun hbuckets => ⟨hbuckets, ?_⟩⟩
  obtain ⟨buckets, hok⟩ := hbuckets
  intro ranks planned hplan receiver owner bucket hmem
  have hremote : ∀ b ∈ buckets, (rankToRdmaDevice
      (s.gatherMetas records).remoteRdmaDevices b.1).isSome := by
    intro b hb
    obtain ⟨owner, howner, heq⟩ := List.mem_map.mp ((allBuckets_owners hok).1 b hb)
    rw [← heq]
    exact covers_iff_device.mp (gatherMetas_matched owner howner)
  exact allBuckets_asserted hfilled hok _ (mem_genH2dBuckets hok hremote hplan hmem)

/-- A host on which every file has this header and so many bytes behind it. -/
def fileBackend (header : List (HeaderEntry Int)) (nbytes : Nat) : Registry.Backend Int where
  host :=
    { loadCheckpoint := fun _ => .ok []
      safetensors := fun _ => .ok ⟨header, nbytes⟩
      allocate := fun k => 4096 * (k + 1)
      pinRaises := fun _ => none }
  supportsInplacePin := true
  registers _ := true
  unregisters _ := true
  unpinRaises _ := none

/-- A rank on which one call has been made. -/
def registrantAfter (backend : Registry.Backend Int) (c : ParameterServer.Call) : Registrant where
  p2p := false
  server := ((ParameterServer.fresh false).call backend c).state
  reachable := by
    apply @Machine.Reachable.step _ _ (ParameterServer.machine false) _ _ (backend, c) .init
    rfl
  p2pStoreAddr := none
  hostIp := "10.0.0.1"
  deviceUuid := ""
  rdmaDevice := ""

/-- One tensor is registered. -/
def tensorRegistrant (checkpointName : String) (shape : TorchSize) : Registrant :=
  registrantAfter (fileBackend [] 0)
    (.register ⟨checkpointName, [], [⟨"weight", .float32, shape⟩], false, true⟩)

/-- A file is pinned in place and registered as `"a"`. -/
def fileRegistrant (header : List (HeaderEntry Int)) (nbytes : Nat) : Registrant :=
  registrantAfter (fileBackend header nbytes)
    (.register ⟨"a", ["/dev/shm/model.safetensors"], [], false, true⟩)

/-- Two tensors of 200 bytes, and a third one behind them that ends at `stop`. -/
def overlappingHeader (stop : Int) : List (HeaderEntry Int) :=
  [⟨"x", .uint8, [200], 0, 200, 200, rfl⟩, ⟨"y", .uint8, [200], 200, 400, 200, rfl⟩,
    ⟨"z", .uint8, [100], 400, stop, stop - 400, by omega⟩]

/-- A rank of three before the gather. -/
def gatheringServer : ServerMetas Int := .fresh 0 3 3 (by decide)

/-- Three ranks: a tensor, nothing under the name, and a file whose last tensor ends before it
starts but leaves 100 bytes of the one before. -/
def threeRegistrants : List Registrant :=
  [tensorRegistrant "a" [1], tensorRegistrant "b" [1], fileRegistrant (overlappingHeader 300) 300]

/-- What the three ranks announce. -/
def threeRecords : List (DataToGather Int) :=
  let record metas size : DataToGather Int :=
    ⟨⟨none, [⟨metas, 4096, size⟩], ""⟩, "10.0.0.1", ""⟩
  [record [⟨"weight", .float32, [1], 256⟩] 256, ⟨⟨none, [], ""⟩, "10.0.0.1", ""⟩,
    record [⟨"x", .uint8, [200], 200⟩, ⟨"y", .uint8, [200], 200⟩, ⟨"z", .uint8, [100], -100⟩] 300]

/-- The three ranks can be planned with 256 bytes. -/
theorem planning_never_fails_iff_threeRanks :
    PlannedAndCopied (gatheringServer.gatherMetas threeRecords) 256 := by
  apply (@planning_never_fails_iff "a" threeRegistrants threeRecords gatheringServer rfl 768 0 256
    false false rfl).mpr
  intro r hr pool hpool hne
  simp only [threeRegistrants, List.mem_cons, List.not_mem_nil, or_false] at hr
  rcases hr with rfl | rfl | rfl
  · obtain rfl := Except.ok.inj hpool
    exact ⟨⟨_, List.mem_cons_self, by decide⟩, fun _ => by decide⟩
  · obtain rfl := Except.ok.inj hpool
    exact absurd rfl hne
  · obtain rfl := Except.ok.inj hpool
    exact ⟨⟨_, List.mem_cons_self, by decide⟩, fun _ => by decide⟩

/-- The assertion of the planner fails for what the ranks have registered. -/
def PlannerFails (registrants : List Registrant) (size : Int) : Prop :=
  ∃ records, registrants.mapM (Registrant.record "a") = .ok records ∧
    detectBucketSizeOf (gatheringServer.gatherMetas records).currentGlobalParameterMetas 768 0
      false = .ok (256, false) ∧
    allBuckets (256 : Int) (gatheringServer.gatherMetas records).currentGlobalParameterMetas =
      .error (.assertionError s!"buckets[-1][1].size {size} should be greater than 0")

/-- A rank with one tensor without elements, one file without tensors, or one file whose last
tensor takes back what the last bucket holds, is registered and gathered, and the planner's
assertion fails. -/
theorem planning_fails :
    PlannerFails [tensorRegistrant "a" [1], tensorRegistrant "a" [0]] 0 ∧
      PlannerFails [tensorRegistrant "a" [1], fileRegistrant [] 0] 0 ∧
      PlannerFails [tensorRegistrant "a" [1], fileRegistrant (overlappingHeader 100) 100] (-100) :=
  ⟨⟨_, rfl, rfl, rfl⟩, ⟨_, rfl, rfl, rfl⟩, _, rfl, rfl, rfl⟩

end CheckpointEngine.Update
