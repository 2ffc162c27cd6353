/-
  `Registry.Reuse`: registering a checkpoint with a shared pool that is there already.

  The buckets are compared with the pool one by one, and the pool is replaced by what they
  got.  A pool with more buffers than the checkpoint has buckets loses the others.
-/
import CheckpointEngine.Registry.Pools
import CheckpointEngine.Registry.Routing

set_option autoImplicit false

namespace CheckpointEngine.Registry

open CheckpointEngine.Foundation

/-! ## Buckets and the pool -/

/-- The sizes of the buckets a checkpoint that is not pinned in place is packed into, or what
is raised instead. -/
def packedSizes (host : Host) (files : List String) (namedTensors : List Parameter) :
    Except PyError (List Nat) :=
  if files.isEmpty && namedTensors.isEmpty then
    .ok []
  else do
    let loaded ← host.loadCheckpoint files
    let parameters := updateParameters loaded namedTensors
    if parameters.isEmpty then
      .error (.valueError "max() arg is an empty sequence")
    else
      return (packBuckets parameters : List MemoryBucket).map (·.size)

section Pools

variable {host : Host} {files : List String} {namedTensors : List Parameter}
  {shared loaded : List MemoryBuffer}

/-- A bucket gets the buffer of the pool at its place, if that has its size. -/
theorem registerPinMemory_reuse (hne : shared ≠ []) (htiled : Tiled shared) {idx size : Nat}
    {buffer : Tensor} :
    registerPinMemory host shared idx size = .ok buffer ↔
      ∃ old, shared[idx]? = some old ∧ old.size = size ∧ old.buffer = buffer := by
  unfold registerPinMemory
  rw [if_neg (by simpa using hne)]
  cases hget : shared[idx]? with
  | none => simp
  | some old =>
      have hold := (htiled old (List.mem_of_getElem? hget)).1
      simp only [ne_eq, Option.some.injEq, exists_eq_left', hold]
      constructor
      · intro h
        split at h
        · cases h
        · rename_i hsize
          exact ⟨not_not.mp hsize, Except.ok.inj h⟩
      · rintro ⟨rfl, rfl⟩
        rw [if_neg (not_not.mpr rfl), if_neg (not_not.mpr rfl)]

/-- The loop over the buckets, as `_normal_pin_memory` has it. -/
def fillBuckets (host : Host) (shared : List MemoryBuffer) (buckets : List MemoryBucket) :
    Except PyError (List MemoryBuffer) :=
  buckets.zipIdx.mapM fun (bucket, idx) => do
    let buffer ← registerPinMemory host shared idx bucket.size
    return ⟨buffer, bucket.size, bucket.metas, false⟩

/-- Buckets that fit get the first buffers of the pool. -/
theorem fillBuckets_ok (hne : shared ≠ []) (htiled : Tiled shared) {buckets : List MemoryBucket}
    (h : fillBuckets host shared buckets = .ok loaded) :
    loaded.map (·.size) = buckets.map (·.size) ∧
      loaded.map (·.size) <+: shared.map (·.size) ∧
      loaded.map (·.buffer) <+: shared.map (·.buffer) := by
  obtain ⟨hlength, hplaces⟩ := mapM_zipIdx_ok h
  have hplace : ∀ (i : Nat) (b : MemoryBuffer), loaded[i]? = some b →
      ∃ bucket : MemoryBucket, ∃ old : MemoryBuffer, buckets[i]? = some bucket ∧
        shared[i]? = some old ∧ old.size = b.size ∧ old.buffer = b.buffer ∧
        bucket.size = b.size := by
    intro i b hb
    obtain ⟨bucket, hbucket, hfill⟩ := hplaces i b hb
    obtain ⟨buffer, hbuffer, hfill⟩ := bind_eq_ok.mp hfill
    obtain rfl := Except.ok.inj hfill
    rw [Nat.zero_add, registerPinMemory_reuse hne htiled] at hbuffer
    obtain ⟨old, hold, hsize, heq⟩ := hbuffer
    exact ⟨bucket, old, hbucket, hold, hsize, heq, rfl⟩
  refine ⟨?_, ?_, ?_⟩
  · apply List.ext_getElem
    · rw [List.length_map, List.length_map, hlength]
    · intro i hi _
      rw [List.length_map] at hi
      obtain ⟨bucket, _, hbucket, _, _, _, hsize⟩ := hplace i _ (List.getElem?_eq_getElem hi)
      obtain ⟨hlt, rfl⟩ := List.getElem?_eq_some_iff.mp hbucket
      rw [List.getElem_map, List.getElem_map, hsize]
  · rw [List.prefix_iff_getElem?]
    intro i hi
    rw [List.length_map] at hi
    obtain ⟨_, old, _, hold, hsize, _⟩ := hplace i _ (List.getElem?_eq_getElem hi)
    rw [List.getElem?_map, hold, List.getElem_map, ← hsize]
    rfl
  · rw [List.prefix_iff_getElem?]
    intro i hi
    rw [List.length_map] at hi
    obtain ⟨_, old, _, hold, _, hbuffer, _⟩ := hplace i _ (List.getElem?_eq_getElem hi)
    rw [List.getElem?_map, hold, List.getElem_map, ← hbuffer]
    rfl

theorem exists_fillBuckets (hne : shared ≠ []) (htiled : Tiled shared)
    {buckets : List MemoryBucket} (h : buckets.map (·.size) <+: shared.map (·.size)) :
    ∃ loaded, fillBuckets host shared buckets = .ok loaded := by
  apply exists_mapM_zipIdx
  intro i bucket hbucket
  obtain ⟨hi, rfl⟩ := List.getElem?_eq_some_iff.mp hbucket
  have hsame := List.prefix_iff_getElem?.mp h i (by rwa [List.length_map])
  rw [List.getElem?_map, List.getElem_map] at hsame
  obtain ⟨old, hold, hsize⟩ := Option.map_eq_some_iff.mp hsame
  have hbuffer := (@registerPinMemory_reuse host shared hne htiled i buckets[i].size
    old.buffer).mpr ⟨old, hold, hsize, rfl⟩
  rw [Nat.zero_add]
  refine ⟨⟨old.buffer, buckets[i].size, buckets[i].metas, false⟩, ?_⟩
  simp only [hbuffer]
  rfl

/-- What is registered with a pool. -/
theorem registerCheckpoint_shared_eq :
    registerCheckpoint host files namedTensors shared false =
      if files.isEmpty && namedTensors.isEmpty then .ok []
      else normalPinMemory host files namedTensors shared := by
  unfold registerCheckpoint
  split
  · rfl
  · rename_i hsome
    have hfilter : files.filter (fun file => decide (file ∉ ([] : List String))) = files := by
      simp
    simp only [Bool.false_eq_true, if_false, hfilter, if_neg hsome]
    cases normalPinMemory host files namedTensors shared with
    | error error => rfl
    | ok normal =>
        change Except.ok (normal ++ []) = _
        rw [List.append_nil]

/-- A checkpoint that is registered with a pool takes its first buffers. -/
theorem registerCheckpoint_reuse (hne : shared ≠ []) (htiled : Tiled shared)
    (h : registerCheckpoint host files namedTensors shared false = .ok loaded) :
    packedSizes host files namedTensors = .ok (loaded.map (·.size)) ∧
      loaded.map (·.size) <+: shared.map (·.size) ∧
      loaded.map (·.buffer) <+: shared.map (·.buffer) := by
  rw [registerCheckpoint_shared_eq] at h
  unfold packedSizes
  split at h
  · rename_i hnone
    obtain rfl := Except.ok.inj h
    rw [if_pos hnone]
    exact ⟨rfl, List.nil_prefix, List.nil_prefix⟩
  · rename_i hsome
    unfold normalPinMemory at h
    obtain ⟨parameters, hload, h⟩ := bind_eq_ok.mp h
    simp only at h
    split at h
    · cases h
    · rename_i hparameters
      obtain ⟨hsizes, hfits⟩ := fillBuckets_ok hne htiled h
      rw [if_neg hsome, hload, hsizes]
      refine ⟨?_, hsizes ▸ hfits⟩
      change (if _ then _ else _) = _
      rw [if_neg hparameters]
      rfl

/-- A checkpoint whose buckets are the first of the pool in their sizes can be registered. -/
theorem exists_registerCheckpoint_reuse (hne : shared ≠ []) (htiled : Tiled shared)
    {sizes : List Nat} (hpacked : packedSizes host files namedTensors = .ok sizes)
    (hfits : sizes <+: shared.map (·.size)) :
    ∃ loaded, registerCheckpoint host files namedTensors shared false = .ok loaded := by
  rw [registerCheckpoint_shared_eq]
  unfold packedSizes at hpacked
  split at hpacked
  · rename_i hnone
    rw [if_pos hnone]
    exact ⟨[], rfl⟩
  · rename_i hsome
    obtain ⟨parameters, hload, hpacked⟩ := bind_eq_ok.mp hpacked
    simp only at hpacked
    split at hpacked
    · cases hpacked
    · rename_i hparameters
      obtain rfl := Except.ok.inj hpacked
      obtain ⟨loaded, hloaded⟩ := @exists_fillBuckets host shared hne htiled _ hfits
      refine ⟨loaded, ?_⟩
      rw [if_neg hsome, normalPinMemory, hload]
      change (if _ then _ else _) = _
      rw [if_neg hparameters]
      exact hloaded

end Pools

namespace ParameterServer

variable {backend : Backend} {s t : ParameterServer} {name : String}

/-! ## Registering with a pool that is there -/

/-- The call returns exactly if the checkpoint packs into the sizes of the pool, and the pool
then has the same buffers; a call that raises leaves the pool alone. -/
structure KeepsPool (backend : Backend) (s : ParameterServer) (request : Request)
    (pool : List MemoryBuffer) : Prop where
  returns_iff : (∃ t, s.registerCheckpoint backend request = .returned t) ↔
    packedSizes backend.host request.files request.namedTensors = .ok (pool.map (·.size))
  returned : ∀ t, s.registerCheckpoint backend request = .returned t →
    ∃ left, t.memoryPool sharedMemoryPoolName = some left ∧
      left.map (·.buffer) = pool.map (·.buffer) ∧ left.map (·.size) = pool.map (·.size)
  raised : ∀ error t, s.registerCheckpoint backend request = .raised error t →
    t.memoryPool sharedMemoryPoolName = some pool

/-- The checkpoint does not pack into the sizes of some of the first buffers only; and where it
does not pack into those of all, it does not have the name of the pool, or the clean-up cannot
delete that. -/
structure FitsPool (backend : Backend) (s : ParameterServer) (request : Request)
    (pool : List MemoryBuffer) : Prop where
  whole : ∀ sizes, packedSizes backend.host request.files request.namedTensors = .ok sizes →
    sizes <+: pool.map (·.size) → sizes = pool.map (·.size)
  kept : packedSizes backend.host request.files request.namedTensors ≠ .ok (pool.map (·.size)) →
    request.checkpointName = sharedMemoryPoolName → ¬ RollsBackKey backend s request

theorem rollback_raises (request : Request) (error : PyError) :
    ∃ error' t, s.rollback backend request error = .raised error' t := by
  unfold rollback
  simp only
  split
  · exact ⟨_, _, rfl⟩
  · split <;> exact ⟨_, _, rfl⟩

/-- The clean-up of a shared registration that has stored nothing deletes the pool exactly under
its name. -/
theorem rollback_keeps_pool {request : Request} {error : PyError} {pool : List MemoryBuffer}
    (hpool : s.memoryPool sharedMemoryPoolName = some pool) :
    (s.rollback backend request error).state.memoryPool sharedMemoryPoolName = some pool ↔
      (request.checkpointName = sharedMemoryPoolName → ¬ RollsBackKey backend s request) := by
  have hback := @rollback_rolledBack backend s (by rw [hpool]; exact Option.some_ne_none pool)
    request error
  cases hback with
  | kept hkept _ hpools _ => exact iff_of_true (hpools ▸ hpool) fun _ => hkept
  | released hname _ hpools _ => exact iff_of_true (hpools ▸ hpool) fun _ hrolls => hrolls.1 hname
  | deleted hdeletes hpools _ =>
      rw [hpools, Function.update_apply]
      split
      · rename_i hname
        exact iff_of_false nofun fun hkept => hkept hname.symm hdeletes
      · rename_i hname
        exact iff_of_true hpool fun heq => absurd heq.symm hname

/-- A registration that raises before it has stored anything. -/
theorem keepsPool_of_unstored {request : Request} {pool : List MemoryBuffer} {error : PyError}
    (hpool : s.memoryPool sharedMemoryPoolName = some pool)
    (htried : s.tryRegister backend request = .raised error s)
    (hmisfit : ∀ sizes, packedSizes backend.host request.files request.namedTensors = .ok sizes →
      ¬ sizes <+: pool.map (·.size)) :
    KeepsPool backend s request pool ↔ FitsPool backend s request pool := by
  have hsizes : packedSizes backend.host request.files request.namedTensors ≠
      .ok (pool.map (·.size)) := fun hsame => hmisfit _ hsame (List.prefix_refl _)
  have hback : s.registerCheckpoint backend request = s.rollback backend request error := by
    unfold ParameterServer.registerCheckpoint
    rw [← tryRegister, htried]
  obtain ⟨error', t, hraises⟩ := @rollback_raises backend s request error
  have hkeeps := @rollback_keeps_pool backend s request error pool hpool
  rw [hraises] at hkeeps
  rw [hraises] at hback
  constructor
  · intro h
    exact ⟨fun sizes hpacked hfits => absurd hfits (hmisfit sizes hpacked),
      fun _ => hkeeps.mp (h.raised _ _ hback)⟩
  · intro h
    refine ⟨iff_of_false ?_ hsizes, ?_, ?_⟩
    · rintro ⟨u, hreturned⟩
      rw [hback] at hreturned
      cases hreturned
    · intro u hreturned
      rw [hback] at hreturned
      cases hreturned
    · intro e u hraised
      obtain ⟨-, rfl⟩ := Outcome.raised.inj (hback.symm.trans hraised)
      exact hkeeps.mpr (h.kept hsizes)

/-- A shared registration on a pool without a user keeps the pool's shape exactly under
`FitsPool`. -/
theorem registerCheckpoint_keepsPool_iff {p2p : Bool} {request : Request}
    {pool : List MemoryBuffer} (hreach : (machine p2p).Reachable s)
    (hpool : s.memoryPool sharedMemoryPoolName = some pool) (hne : pool ≠ [])
    (huser : s.currentUser = "") (hshared : request.useSharedMemoryPool = true) :
    KeepsPool backend s request pool ↔ FitsPool backend s request pool := by
  have htiled : Tiled pool := allPools_reachable holdsOfLoaded_tiled hreach _ _ hpool
  have htry : s.tryRegister backend request = s.tryShared backend request := if_pos hshared
  obtain ⟨hfails, error, htried⟩ | ⟨_, _, loaded, hload, htried⟩ :=
    @tryShared_cases backend s request pool hpool hshared
  · apply keepsPool_of_unstored hpool (htry.trans htried)
    intro sizes hpacked hfits
    obtain ⟨loaded, hload⟩ := exists_registerCheckpoint_reuse hne htiled hpacked hfits
    simp [FailsUnstored, hshared, huser, hpool, hload] at hfails
  · obtain ⟨hpacked, hfits, hbuffers⟩ := registerCheckpoint_reuse hne htiled hload
    have hnotFirst : pool.isEmpty = false := by simpa using hne
    have hreturned : s.registerCheckpoint backend request = .returned
        { s with
          memoryPool := Function.update s.memoryPool sharedMemoryPoolName (some loaded)
          currentUser := request.checkpointName } := by
      have hpublish : s.tryRegister backend request = .returned
          { s with
            memoryPool := Function.update s.memoryPool sharedMemoryPoolName (some loaded)
            currentUser := request.checkpointName } := by
        rw [htry, htried, publish, hnotFirst, Bool.and_false]
        rfl
      unfold ParameterServer.registerCheckpoint
      rw [← tryRegister, hpublish]
    constructor
    · intro h
      have hwhole := h.returns_iff.mp ⟨_, hreturned⟩
      refine ⟨fun sizes hpacked' _ => ?_, fun hnot => absurd hwhole hnot⟩
      exact Except.ok.inj (hpacked'.symm.trans hwhole)
    · intro h
      have hwhole := h.whole _ hpacked hfits
      refine ⟨iff_of_true ⟨_, hreturned⟩ (hwhole ▸ hpacked), ?_, ?_⟩
      · intro t hreturned'
        obtain rfl := Outcome.returned.inj (hreturned.symm.trans hreturned')
        refine ⟨loaded, by simp, hbuffers.eq_of_length ?_, hwhole⟩
        have hlength := congrArg List.length hwhole
        rwa [List.length_map, List.length_map] at hlength ⊢
      · intro error t hraised
        rw [hreturned] at hraised
        cases hraised

/-- The shared pool has two buckets, and its user has let go of it. -/
def twoBuckets : ParameterServer :=
  (((fresh true).call plainBackend (.register (inSharedPool "a"
    [⟨"v", .uint8, [4 <<< 30]⟩, ⟨"w", .uint8, [256]⟩]))).state.call plainBackend
      (.unregister "a" false)).state

/-- Its buffers. -/
def twoBucketsPool : List MemoryBuffer :=
  [⟨⟨4096, 4 <<< 30⟩, 4 <<< 30, [⟨"v", .uint8, [4 <<< 30], 4 <<< 30⟩], false⟩,
    ⟨⟨8192, 256⟩, 256, [⟨"w", .uint8, [256], 256⟩], false⟩]

theorem twoBuckets_reachable : (machine true).Reachable twoBuckets := by
  have hfirst := @Machine.Reachable.step _ _ (machine true) _ _ (plainBackend, .register
    (inSharedPool "a" [⟨"v", .uint8, [4 <<< 30]⟩, ⟨"w", .uint8, [256]⟩])) .init rfl
  exact hfirst.step
    (show (machine true).step _ (plainBackend, .unregister "a" false) = some twoBuckets from rfl)

theorem twoBuckets_pool : twoBuckets.memoryPool sharedMemoryPoolName = some twoBucketsPool := rfl

/-- A checkpoint that packs into the same sizes uses the same buffers. -/
theorem registerCheckpoint_keepsPool_iff_sameSizes :
    KeepsPool plainBackend twoBuckets
      (inSharedPool "b" [⟨"x", .uint8, [4 <<< 30]⟩, ⟨"y", .float32, [50]⟩]) twoBucketsPool := by
  have hpacked : packedSizes plainBackend.host []
      [⟨"x", .uint8, [4 <<< 30]⟩, ⟨"y", .float32, [50]⟩] =
        .ok (twoBucketsPool.map (·.size)) := rfl
  apply (registerCheckpoint_keepsPool_iff twoBuckets_reachable twoBuckets_pool
    (List.cons_ne_nil _ _) rfl rfl).mpr
  refine ⟨fun sizes hsizes _ => ?_, fun hnot => absurd hpacked hnot⟩
  exact (Except.ok.inj (hpacked.symm.trans hsizes)).symm

/-- Without tensors, or with fewer, the pool is cut short; and a misfit under its own name
deletes it. -/
theorem pool_not_kept :
    (machine true).Reachable twoBuckets ∧
      twoBuckets.memoryPool sharedMemoryPoolName = some twoBucketsPool ∧
      twoBuckets.currentUser = "" ∧
      ¬ KeepsPool plainBackend twoBuckets (inSharedPool "b" []) twoBucketsPool ∧
      ¬ KeepsPool plainBackend twoBuckets (inSharedPool "b" [⟨"x", .uint8, [4 <<< 30]⟩])
        twoBucketsPool ∧
      ¬ KeepsPool plainBackend twoBuckets
        (inSharedPool sharedMemoryPoolName [⟨"x", .uint8, [1]⟩]) twoBucketsPool := by
  refine ⟨twoBuckets_reachable, rfl, rfl, fun h => ?_, fun h => ?_, fun h => ?_⟩
  · obtain ⟨left, hleft, hbuffers, _⟩ := h.returned _ rfl
    obtain rfl : [] = left := Option.some.inj hleft
    cases hbuffers
  · obtain ⟨left, hleft, hbuffers, _⟩ := h.returned _ rfl
    obtain rfl : [⟨⟨4096, 4 <<< 30⟩, 4 <<< 30, [⟨"x", .uint8, [4 <<< 30], 4 <<< 30⟩], false⟩] =
      left := Option.some.inj hleft
    cases hbuffers
  · have hkept := h.raised _ _ rfl
    cases hkept

end ParameterServer

end CheckpointEngine.Registry
