/-
  `Launch.Join`: an inference instance that joins later, `join` in `examples/update.py`.

  The joiners register nothing.  They read the metas that the first job has saved, or that
  one of its servers returns for `/v1/metas`, and fetch the checkpoint from its memory.
-/
import CheckpointEngine.Launch.Arrival
import CheckpointEngine.Launch.Interchange

set_option autoImplicit false

namespace CheckpointEngine.Launch

open CheckpointEngine.Foundation CheckpointEngine.Plan CheckpointEngine.Registry
open CheckpointEngine.Update (Hands RemoteReads RunsRemotely hands_of_runs detectBucketSize
  detectBucketSize_fits)

/-- The steps of `join` up to its update: a joiner reads the metas, gathers with the other
joiners, and loads what it has read. -/
def Joins (v : Validators) (data : List UInt8) (s : ServerMetas) (joiners : List DataToGather)
    (t : ServerMetas) : Prop :=
  ∃ metas, v.validateJson data = .ok (readMetas metas) ∧
    (s.gatherMetas joiners).loadMetas metas = .returned t

/-- What the update of the joiners finds. -/
def joinDeployment (t : ServerMetas) (loaded : Rank → Loaded) (inferenceParallelSize : Nat)
    (bucketSize : Nat) (disableH2dBuffer : Bool) : Deployment where
  globalMetas := t.currentGlobalParameterMetas
  worldSize := t.worldSize
  ranks := List.range inferenceParallelSize
  localTopo := t.localRdmaDevices
  remoteTopo := t.remoteRdmaDevices
  bucketSize
  disableH2dBuffer
  hostMemory rank := (loaded rank).memory

namespace Job

variable {job : Job} {parts : Rank → List String × TensorDict} {loaded : Rank → Loaded}
  {s first : ServerMetas} {v : Validators} {joiners : List DataToGather} {t : ServerMetas}

/-- What rank 0 saves, or returns. -/
def savedMetas (job : Job) (loaded : Rank → Loaded) (first : ServerMetas) (v : Validators) :
    List UInt8 :=
  v.dumpJson (readMetas (job.gathered loaded first).currentGlobalParameterMetas)

/-- The ranks that have buffers have published them. -/
def Published (job : Job) (loaded : Rank → Loaded) : Prop :=
  ∀ rank < job.worldSize, (loaded rank).buffers ≠ [] → job.p2pStoreAddr rank ≠ none

theorem Published.hasAddress (h : job.Published loaded) :
    ∀ owner ∈ (job.gathered loaded first).currentGlobalParameterMetas, HasAddress owner := by
  intro owner howner
  obtain ⟨rank, hrank, hbuffers, rfl⟩ := mem_gathered_metas.mp howner
  exact h rank hrank hbuffers

/-- The joiners find the metas of the first job, its owners in the remote topology, and
themselves in the local one. -/
theorem Published.joins_iff (h : job.Published loaded) :
    Joins v (job.savedMetas loaded first v) s joiners t ↔
      t = { s.gatherMetas joiners with
        currentGlobalParameterMetas := (job.gathered loaded first).currentGlobalParameterMetas
        remoteRdmaDevices :=
          groupsOf (job.gathered loaded first).currentGlobalParameterMetas } := by
  have hread := v.validateJson_dumpJson (readMetas_nodup (@gathered_keys_nodup job loaded first))
  have hload := @loadMetas_of_addresses (s.gatherMetas joiners) _
    (@Published.hasAddress job loaded first h)
  constructor
  · intro hjoins
    obtain ⟨metas, hmetas, hreturned⟩ := hjoins
    obtain rfl := readMetas_injective (Except.ok.inj (hmetas.symm.trans hread))
    rw [hload] at hreturned
    exact (Outcome.returned.inj hreturned).symm
  · intro ht
    exact ⟨_, hread, ht ▸ hload⟩

/-- The joiners' update holds what the first job's ranks hold. -/
theorem Registered.join_weights (h : job.Registered parts loaded) (hintact : job.Intact parts)
    (hmetas : t.currentGlobalParameterMetas =
      (job.gathered loaded first).currentGlobalParameterMetas)
    {n bucketSize : Nat} {disableH2dBuffer : Bool} :
    (joinDeployment t loaded n bucketSize disableH2dBuffer).weights.Perm
      (job.tensors.map weight) := by
  have hsame : (joinDeployment t loaded n bucketSize disableH2dBuffer).weights =
      (job.deployment loaded first [] bucketSize disableH2dBuffer).weights := by
    rw [Deployment.weights, Deployment.weights, joinDeployment, deployment, hmetas]
  rw [hsame]
  exact h.weights_perm hintact

end Job

/-- **Joining.**  From the saved metas the joiners fetch the checkpoint out of the memory of
the first job: however the joiners' engines order their reads, every worker is handed every
tensor of the checkpoint, once, with the dtype, the shape and the bytes that it has in its
file. -/
theorem join_delivers (job : Job) (first s : ServerMetas) (v : Validators)
    {parts : Rank → List String × TensorDict} {loaded : Rank → Loaded}
    (h : job.Registered parts loaded) (hintact : job.Intact parts)
    (hpublished : job.Published loaded) (joiners : List DataToGather)
    {inferenceParallelSize : Nat} (hsize : 0 < inferenceParallelSize)
    (hjoiners : inferenceParallelSize ≤ joiners.length) :
    (∃ t, Joins v (job.savedMetas loaded first v) s joiners t) ∧
      ∀ t, Joins v (job.savedMetas loaded first v) s joiners t →
        ∀ {freeBytes maxBytes bucketSize : Nat} {disabled disableH2dBuffer : Bool},
          detectBucketSize t.currentGlobalParameterMetas freeBytes maxBytes disabled =
              .ok (bucketSize, disableH2dBuffer) →
          ∀ x : RemoteReads,
            x.Connects (joinDeployment t loaded inferenceParallelSize bucketSize
              disableH2dBuffer) →
            (∃ u, RunsRemotely (joinDeployment t loaded inferenceParallelSize bucketSize
                disableH2dBuffer) x u) ∧
              ∀ u, RunsRemotely (joinDeployment t loaded inferenceParallelSize bucketSize
                  disableH2dBuffer) x u → Hands u (job.tensors.map weight) := by
  refine ⟨⟨_, hpublished.joins_iff.mpr rfl⟩, ?_⟩
  intro t hjoins freeBytes maxBytes bucketSize disabled disableH2dBuffer hdetect x hconnects
  have ht := hpublished.joins_iff.mp hjoins
  have hmetas : t.currentGlobalParameterMetas =
      (job.gathered loaded first).currentGlobalParameterMetas := by rw [ht]
  have hranks : (joinDeployment t loaded inferenceParallelSize bucketSize
      disableH2dBuffer).ranks ≠ [] := by
    rw [joinDeployment, ne_eq, List.range_eq_nil]
    omega
  have hlocal : Covers t.localRdmaDevices 0 := by
    have hpos : 0 < joiners.length := Nat.lt_of_lt_of_le hsize hjoiners
    rw [ht]
    exact (gatherMetas_covers s joiners).mpr (.inl hpos)
  have hremote : ∀ owner ∈ t.currentGlobalParameterMetas,
      (rankToRdmaDevice t.remoteRdmaDevices owner.1).isSome := by
    intro owner howner
    refine covers_iff_device.mp ?_
    have hmatched := @loadMetas_matched (s.gatherMetas joiners) _
      (@Job.Published.hasAddress job loaded first hpublished)
    rw [loadMetas_of_addresses hpublished.hasAddress, Outcome.state, ← ht] at hmatched
    exact hmatched owner howner
  have hwell : (joinDeployment t loaded inferenceParallelSize bucketSize
      disableH2dBuffer).WellFormed := by
    refine h.wellFormed_of hintact hmetas (fun owner => detectBucketSize_fits hdetect owner)
      (fun hnil => absurd hnil hranks) fun _ => ⟨?_, hremote⟩
    obtain ⟨group, hgroup, hin⟩ := hlocal
    exact ⟨group, hgroup, 0, hin, List.mem_range.mpr hsize⟩
  refine ⟨Update.exists_runsRemotely hwell hranks hconnects, fun u hremotely => ?_⟩
  exact (hands_of_runs hwell (hremotely.runs hwell hranks hconnects)).of_perm
    (h.join_weights hintact hmetas)

/-- `twoFilesJob`, with P2P stores. -/
def publishedJob : Job :=
  { twoFilesJob with p2pStoreAddr := fun rank => some (if rank = 0 then "host0:1" else "host0:2") }

/-- What the owners of `publishedJob` have announced. -/
def publishedMetas : GlobalMetas :=
  [(0, ⟨some "host0:1", announced (twoFilesBuffers 0), ""⟩),
    (1, ⟨some "host0:2", announced (twoFilesBuffers 1), ""⟩)]

/-- A joiner reads from both of them. -/
def publishedReads (loaded : Rank → Loaded) : RemoteReads where
  engine _ := Update.backwardEngine [⟨4096, 256⟩] fun addr =>
    if addr = "host0:1" then some ⟨(loaded 0).memory, [⟨4096, 256⟩]⟩
    else if addr = "host0:2" then some ⟨(loaded 1).memory, [⟨4096, 256⟩]⟩
    else none
  ipcBuffer _ := 4096
  gidx _ i := i
  memory _ _ _ := 0

/-- A rank that has nothing to announce. -/
def emptyRecord : DataToGather := ⟨⟨none, [], ""⟩, "10.0.0.2", ""⟩

theorem join_delivers_published : ∃ loaded t u,
    publishedJob.Registered twoFilesParts loaded ∧
      Joins strictValidators (publishedJob.savedMetas loaded (.fresh 0 2 2 (by decide))
        strictValidators) (.fresh 0 1 1 (by decide)) [emptyRecord] t ∧
      RunsRemotely (joinDeployment t loaded 1 256 false) (publishedReads loaded) u ∧
      Hands u (publishedJob.tensors.map weight) := by
  obtain ⟨loaded, hloaded, hbuffers⟩ := twoFilesJob_registered
  have hregistered : publishedJob.Registered twoFilesParts loaded :=
    ⟨hloaded.split, hloaded.registers, hloaded.separate⟩
  have hintact : publishedJob.Intact twoFilesParts :=
    ⟨twoFilesJob_intact.names, twoFilesJob_intact.tensors_ne, twoFilesJob_intact.bytes⟩
  have hmetas : (publishedJob.gathered loaded (.fresh 0 2 2 (by decide))
      ).currentGlobalParameterMetas = publishedMetas := by
    rw [Job.gathered_metas]
    have hranks : (List.range publishedJob.worldSize).filterMap (fun rank =>
        if (announced (loaded rank).buffers).isEmpty then none
        else some (rank, (publishedJob.record loaded rank).toMemoryBufferMetaList)) =
          (List.range 2).filterMap fun rank =>
            if (announced (twoFilesBuffers rank)).isEmpty then none
            else some (rank, ⟨publishedJob.p2pStoreAddr rank, announced (twoFilesBuffers rank),
              ""⟩) := by
      refine List.filterMap_congr fun rank hrank => ?_
      simp only [Job.record, hbuffers rank (List.mem_range.mp hrank)]
      rfl
    rw [hranks]
    rfl
  have hpublished : publishedJob.Published loaded := fun _ _ _ => Option.some_ne_none _
  obtain ⟨hjoin, hdelivers⟩ := join_delivers publishedJob (.fresh 0 2 2 (by decide))
    (.fresh 0 1 1 (by decide)) strictValidators hregistered hintact hpublished
    [emptyRecord] (show 0 < 1 by decide) (by decide)
  obtain ⟨t, hjoins⟩ := hjoin
  have ht : t.currentGlobalParameterMetas = publishedMetas := by
    rw [hpublished.joins_iff.mp hjoins]
    exact hmetas
  have hdetect : detectBucketSize t.currentGlobalParameterMetas 768 0 false = .ok (256, false) := by
    rw [ht]
    rfl
  have hconnects : (publishedReads loaded).Connects (joinDeployment t loaded 1 256 false) := by
    refine ⟨?_, ?_, fun _ _ => List.mem_singleton_self _⟩
    · simp only [joinDeployment, ht]
      intro owner howner
      cases howner with
      | head => exact ⟨"host0:1", rfl, fun _ _ => rfl⟩
      | tail _ howner =>
          obtain rfl := List.mem_singleton.mp howner
          exact ⟨"host0:2", rfl, fun _ _ => rfl⟩
    · simp only [joinDeployment, ht]
      decide
  obtain ⟨hexists, hhands⟩ := hdelivers t hjoins hdetect (publishedReads loaded) hconnects
  obtain ⟨u, hrun⟩ := hexists
  exact ⟨loaded, t, u, hregistered, hjoins, hrun, hhands u hrun⟩

end CheckpointEngine.Launch
