/-
  `Launch.Arrival`: from the checkpoint directory to the workers, `update_weights` in
  `examples/update.py`.

  The ranks split the checkpoint, each registers its part in a memory of its own, all
  gather what the others have, and an update follows.  The barrier before registration
  lets every rank list the directory before a file that is pinned in place is removed.
-/
import CheckpointEngine.Launch.Registration
import CheckpointEngine.Update.Planning
import CheckpointEngine.Update.RemoteRead

set_option autoImplicit false

namespace CheckpointEngine.Launch

open CheckpointEngine.Foundation CheckpointEngine.Plan CheckpointEngine.Registry
open CheckpointEngine.Update (Weight Hands hands_of_runs detectBucketSize detectBucketSize_fits)

/-! ## The parts of the ranks -/

/-- A checkpoint, and the ranks that load it. -/
structure Job where
  directory : Directory
  disk : Disk
  /-- the `weight_map` of the index, where there is one -/
  index : Option (List (String × String))
  worldSize : Nat
  /-- what `os.listdir` gives on a rank -/
  listdir : Rank → List String
  /-- `supports_inplace_pin()` -/
  inplacePin : Rank → Bool
  device : Rank → Registry.Device
  /-- the memory before registration -/
  start : Rank → Bytes
  p2pStoreAddr : Rank → Option String
  rdmaDevice : Rank → String
  hostIp : Rank → String
  deviceUuid : Rank → String
  worldSize_pos : 0 < worldSize
  listdir_perm : ∀ rank, (listdir rank).Perm directory.names
  keys_nodup : ∀ weightMap ∈ index, (weightMap.map Prod.fst).Nodup

namespace Job

/-- The index, unless the checkpoint is in shared memory. -/
def usedIndex (job : Job) : Option (List (String × String)) :=
  if "/dev/shm/".toList.isPrefixOf job.directory.path.toList then none else job.index

/-- `checkpoint_files` and `named_tensors` of a rank. -/
def part (job : Job) (rank : Rank) : Except SplitError (List String × TensorDict) :=
  match job.usedIndex with
  | some weightMap => do
      let named ← splitTensors job.disk job.directory.path weightMap rank job.worldSize
      return ([], named)
  | none =>
      return (splitCheckpointFiles job.directory.path (job.listdir rank) rank job.worldSize, .empty)

/-- The tensors of the checkpoint. -/
def tensors (job : Job) : List LoadedTensor :=
  match job.usedIndex with
  | some weightMap => weightMap.filterMap (weightOf job.disk job.directory.path)
  | none => (checkpointFiles job.directory.path job.directory.names).flatMap job.disk.tensors

section Parts

variable {job : Job} {parts : Rank → List String × TensorDict}

/-- A rank is given what it has been assigned. -/
def given (job : Job) (parts : Rank → List String × TensorDict) (rank : Rank) :
    List LoadedTensor :=
  givenTensors job.disk (parts rank).1 (parts rank).2

/-- Together the ranks are given the checkpoint. -/
theorem given_perm (hparts : ∀ rank < job.worldSize, job.part rank = .ok (parts rank)) :
    ((List.range job.worldSize).flatMap (job.given parts)).Perm job.tensors := by
  cases hindex : job.usedIndex with
  | none =>
      have hgiven : ∀ rank < job.worldSize, job.given parts rank =
          (splitCheckpointFiles job.directory.path (job.listdir rank) rank job.worldSize).flatMap
            job.disk.tensors := by
        intro rank hrank
        have hpart := hparts rank hrank
        rw [part, hindex] at hpart
        rw [given, ← Except.ok.inj hpart, givenTensors]
        exact List.append_nil _
      rw [tensors, hindex,
        List.flatMap_congr fun rank hrank => hgiven rank (List.mem_range.mp hrank),
        ← splitCheckpointFiles_flatMap job.worldSize_pos job.listdir_perm, List.flatMap_assoc]
  | some weightMap =>
      have hsplit : ∀ rank < job.worldSize, (parts rank).1 = [] ∧
          splitTensors job.disk job.directory.path weightMap rank job.worldSize =
            .ok (parts rank).2 := by
        intro rank hrank
        have hpart := hparts rank hrank
        rw [part, hindex] at hpart
        obtain ⟨named, hnamed, hpart⟩ := bind_eq_ok.mp hpart
        rw [← Except.ok.inj hpart]
        exact ⟨rfl, hnamed⟩
      have hgiven : ∀ rank < job.worldSize, job.given parts rank = (parts rank).2.tensors := by
        intro rank hrank
        rw [given, (hsplit rank hrank).1]
        rfl
      have hkeys : (weightMap.map Prod.fst).Nodup := by
        refine job.keys_nodup weightMap ?_
        rw [usedIndex] at hindex
        exact (Option.ite_none_left_eq_some.mp hindex).2
      have hall := splitTensors_flatMap hkeys job.worldSize_pos
        fun rank hrank => (hsplit rank hrank).2
      rw [tensors, hindex,
        List.flatMap_congr fun rank hrank => hgiven rank (List.mem_range.mp hrank)]
      have hfound := hall.filterMap id
      rw [List.filterMap_map, List.filterMap_map] at hfound
      exact (List.Perm.of_eq List.filterMap_some.symm).trans hfound

/-- A rank's files are not those of another. -/
theorem part_disjoint (hparts : ∀ rank < job.worldSize, job.part rank = .ok (parts rank))
    {rank other : Rank} (hrank : rank < job.worldSize) (hother : other < job.worldSize)
    (hne : other ≠ rank) {file : String} (hfile : file ∈ (parts rank).1) :
    file ∉ (parts other).1 := by
  cases hindex : job.usedIndex with
  | none =>
      have hpart := hparts rank hrank
      have hotherPart := hparts other hother
      rw [part, hindex] at hpart hotherPart
      rw [← Except.ok.inj hpart] at hfile
      rw [← Except.ok.inj hotherPart]
      exact splitCheckpointFiles_disjoint job.listdir_perm hrank hother hne.symm hfile
  | some weightMap =>
      have hpart := hparts rank hrank
      rw [part, hindex] at hpart
      obtain ⟨named, -, hpart⟩ := bind_eq_ok.mp hpart
      rw [← Except.ok.inj hpart] at hfile
      exact absurd hfile List.not_mem_nil

end Parts

/-! ## Registration -/

/-- The disk as a rank sees it: files that other ranks pin in place may be gone. -/
def Sees (job : Job) (parts : Rank → List String × TensorDict) (rank : Rank) (disk : Disk) :
    Prop :=
  ∀ file, (∀ other < job.worldSize, other ≠ rank →
      file ∉ filesToInplacePin (parts other).1 (job.inplacePin other)) →
    disk.file file = job.disk.file file

/-- All ranks have registered their parts. -/
structure Registered (job : Job) (parts : Rank → List String × TensorDict)
    (loaded : Rank → Loaded) : Prop where
  split : ∀ rank < job.worldSize, job.part rank = .ok (parts rank)
  registers : ∀ rank < job.worldSize, ∃ disk, job.Sees parts rank disk ∧
    RegistersCheckpoint disk (job.device rank) (parts rank).1 (parts rank).2
      (job.inplacePin rank) (job.start rank) (loaded rank)
  separate : ∀ rank < job.worldSize, (loaded rank).Separate

/-- No two tensors have one name, and a rank that is given anything is given bytes. -/
structure Intact (job : Job) (parts : Rank → List String × TensorDict) : Prop where
  names : (job.tensors.map fun x => x.name).Nodup
  tensors_ne : job.tensors ≠ []
  bytes : ∀ rank < job.worldSize, (parts rank).1 ≠ [] ∨ (parts rank).2.tensors ≠ [] →
    ∃ tensor ∈ job.given parts rank, tensor.bytes ≠ []

section Registration

variable {job : Job} {parts : Rank → List String × TensorDict} {loaded : Rank → Loaded}

/-- A rank finds its part as it was at the start. -/
theorem Registered.sees_part (h : job.Registered parts loaded) {rank : Rank}
    (hrank : rank < job.worldSize) {disk : Disk} (hsees : job.Sees parts rank disk) :
    givenTensors disk (parts rank).1 (parts rank).2 = job.given parts rank := by
  rw [givenTensors, given, givenTensors]
  congr 1
  refine List.flatMap_congr fun file hfile => ?_
  have hsame : disk.file file = job.disk.file file := by
    refine hsees file fun other hother hne hmem => ?_
    refine part_disjoint h.split hrank hother hne hfile ?_
    unfold filesToInplacePin at hmem
    split at hmem
    · exact List.mem_of_mem_filter hmem
    · exact absurd hmem List.not_mem_nil
  rw [Disk.tensors, Disk.tensors, hsame]

/-- The names that a rank is given are all different. -/
theorem Registered.given_names (h : job.Registered parts loaded) (hintact : job.Intact parts)
    {rank : Rank} (hrank : rank < job.worldSize) :
    ((job.given parts rank).map fun x => x.name).Nodup := by
  have hall := ((given_perm h.split).map fun x => x.name).nodup_iff.mpr hintact.names
  rw [List.map_flatMap, List.nodup_flatMap] at hall
  exact hall.1 rank (List.mem_range.mpr hrank)

/-- What a rank holds is what it has been given. -/
theorem Registered.heldWeights_perm (h : job.Registered parts loaded)
    (hintact : job.Intact parts) {rank : Rank} (hrank : rank < job.worldSize) :
    (heldWeights (loaded rank)).Perm ((job.given parts rank).map weight) := by
  obtain ⟨disk, hsees, hregisters⟩ := h.registers rank hrank
  have hgiven := h.sees_part hrank hsees
  have hnames := h.given_names hintact hrank
  rw [← hgiven] at hnames ⊢
  exact registers_weights hregisters (h.separate rank hrank) hnames

theorem Registered.room (h : job.Registered parts loaded) (hintact : job.Intact parts)
    {rank : Rank} (hrank : rank < job.worldSize) :
    ∀ b ∈ (loaded rank).buffers, ∀ param ∈ b.metas, param.nbytes ≤ param.alignedSize := by
  obtain ⟨disk, hsees, hregisters⟩ := h.registers rank hrank
  have hnames := h.given_names hintact hrank
  rw [← h.sees_part hrank hsees] at hnames
  exact registers_room hregisters (h.separate rank hrank) hnames

theorem Registered.tiled (h : job.Registered parts loaded) {rank : Rank}
    (hrank : rank < job.worldSize) : Tiled (loaded rank).buffers := by
  obtain ⟨disk, -, hregisters⟩ := h.registers rank hrank
  exact registerCheckpoint_tiled hregisters.returned

/-- A rank with buffers has bytes. -/
theorem Registered.hasBytes (h : job.Registered parts loaded) (hintact : job.Intact parts)
    {rank : Rank} (hrank : rank < job.worldSize) (hbuffers : (loaded rank).buffers ≠ []) :
    0 < totalSize ((announced (loaded rank).buffers).flatMap (·.metas)) := by
  obtain ⟨disk, hsees, hregisters⟩ := h.registers rank hrank
  have hgiven : (parts rank).1 ≠ [] ∨ (parts rank).2.tensors ≠ [] := by
    by_contra hnone
    rw [not_or, not_not, not_not] at hnone
    rw [RegistersCheckpoint, if_pos hnone] at hregisters
    rw [hregisters] at hbuffers
    exact hbuffers rfl
  obtain ⟨tensor, htensor, hbytes⟩ := hintact.bytes rank hrank hgiven
  have hheld := (h.heldWeights_perm hintact hrank).mem_iff.mpr (List.mem_map_of_mem htensor)
  obtain ⟨e, he, heq⟩ := List.mem_map.mp hheld
  obtain ⟨-, hdtype, hshape, -⟩ := Weight.mk.inj heq
  have hnbytes : e.param.nbytes = tensor.bytes.length := by
    rw [ParameterMeta.nbytes, hdtype, hshape, tensor.length_bytes]
  have hparam : e.param ∈ (entries (announced (loaded rank).buffers)).map Entry.param :=
    List.mem_map_of_mem he
  rw [entries_map_param] at hparam
  obtain ⟨source, hsource, hmem⟩ := List.mem_flatMap.mp hparam
  obtain ⟨b, hb, rfl⟩ := List.mem_map.mp hsource
  have hroom := h.room hintact hrank b hb e.param hmem
  have hle := @le_load_of_mem _ Entry.weight _ _ he
  have hpos := List.length_pos_iff.mpr hbytes
  rw [← load_entries]
  have hweight : e.weight = e.param.alignedSize := rfl
  omega

end Registration

/-! ## Gathering -/

/-- What `gather_metas` sends of a rank. -/
def record (job : Job) (loaded : Rank → Loaded) (rank : Rank) : DataToGather :=
  ⟨⟨job.p2pStoreAddr rank, announced (loaded rank).buffers, job.rdmaDevice rank⟩,
    job.hostIp rank, job.deviceUuid rank⟩

/-- A server behind the gather; before it may have been any other calls. -/
def gathered (job : Job) (loaded : Rank → Loaded) (s : ServerMetas) : ServerMetas :=
  s.gatherMetas ((List.range job.worldSize).map (job.record loaded))

/-- What the update finds. -/
def deployment (job : Job) (loaded : Rank → Loaded) (s : ServerMetas) (ranks : List Rank)
    (bucketSize : Nat) (disableH2dBuffer : Bool) : Deployment where
  globalMetas := (job.gathered loaded s).currentGlobalParameterMetas
  worldSize := job.worldSize
  ranks
  localTopo := (job.gathered loaded s).localRdmaDevices
  remoteTopo := (job.gathered loaded s).remoteRdmaDevices
  bucketSize
  disableH2dBuffer
  hostMemory rank := (loaded rank).memory

section Gathering

variable {job : Job} {parts : Rank → List String × TensorDict} {loaded : Rank → Loaded}
  {s : ServerMetas} {ranks : List Rank} {bucketSize : Nat} {disableH2dBuffer : Bool}

/-- The metas of the ranks that have buffers, by rank. -/
theorem gathered_metas : (job.gathered loaded s).currentGlobalParameterMetas =
    (List.range job.worldSize).filterMap fun rank =>
      if (announced (loaded rank).buffers).isEmpty then none
      else some (rank, (job.record loaded rank).toMemoryBufferMetaList) := by
  have hnumbered : ((List.range job.worldSize).map (job.record loaded)).zipIdx =
      (List.range job.worldSize).map fun rank => (job.record loaded rank, rank) := by
    refine List.ext_getElem? fun k => ?_
    rw [List.getElem?_zipIdx, List.getElem?_map, List.getElem?_map]
    cases hk : (List.range job.worldSize)[k]? with
    | none => rfl
    | some rank =>
        obtain ⟨hlt, rfl⟩ := List.getElem?_eq_some_iff.mp hk
        rw [List.getElem_range, Nat.zero_add]
        rfl
  rw [gathered, ServerMetas.gatherMetas, hnumbered, List.filterMap_map]
  rfl

/-- An owner is a rank with buffers. -/
theorem mem_gathered_metas {owner : Rank × MemoryBufferMetaList} :
    owner ∈ (job.gathered loaded s).currentGlobalParameterMetas ↔
      ∃ rank < job.worldSize, (loaded rank).buffers ≠ [] ∧
        (rank, (job.record loaded rank).toMemoryBufferMetaList) = owner := by
  rw [gathered_metas, List.mem_filterMap]
  simp only [List.mem_range, Option.ite_none_left_eq_some, Option.some.injEq, announced,
    List.isEmpty_iff, List.map_eq_nil_iff]

/-- The update finds the tensors that the ranks hold. -/
theorem weights_eq : (job.deployment loaded s ranks bucketSize disableH2dBuffer).weights =
    (List.range job.worldSize).flatMap fun rank => heldWeights (loaded rank) := by
  rw [Deployment.weights, deployment, gathered_metas, flatMap_filterMap]
  refine List.flatMap_congr fun rank _ => ?_
  split
  · next hempty =>
      rw [heldWeights, List.isEmpty_iff.mp hempty]
      rfl
  · rfl

/-- The update finds the checkpoint. -/
theorem Registered.weights_perm (h : job.Registered parts loaded) (hintact : job.Intact parts) :
    (job.deployment loaded s ranks bucketSize disableH2dBuffer).weights.Perm
      (job.tensors.map weight) := by
  rw [weights_eq]
  refine .trans ?_ ((given_perm h.split).map weight)
  rw [List.map_flatMap]
  exact List.Perm.flatMap_left _ fun rank hrank =>
    h.heldWeights_perm hintact (List.mem_range.mp hrank)

/-- Each owner is in the metas once. -/
theorem gathered_keys_nodup :
    ((job.gathered loaded s).currentGlobalParameterMetas.map Prod.fst).Nodup := by
  have hkeys : ∀ xs : List Rank, ((xs.filterMap fun rank =>
      if (announced (loaded rank).buffers).isEmpty then none
      else some (rank, (job.record loaded rank).toMemoryBufferMetaList)).map Prod.fst).Sublist
        xs := by
    intro xs
    induction xs with
    | nil => exact List.Sublist.refl _
    | cons rank rest ih =>
        rw [List.filterMap_cons]
        split
        · exact ih.cons rank
        · next hsome =>
            obtain ⟨-, hsome⟩ := Option.ite_none_left_eq_some.mp hsome
            rw [← Option.some.inj hsome]
            exact ih.cons_cons rank
  rw [gathered_metas]
  exact List.nodup_range.sublist (hkeys _)

/-- A checkpoint with tensors has an owner. -/
theorem Registered.gathered_ne (h : job.Registered parts loaded) (hintact : job.Intact parts) :
    (job.gathered loaded s).currentGlobalParameterMetas ≠ [] := by
  intro hnone
  have hweights : (job.deployment loaded s [] 0 false).weights = [] := by
    rw [Deployment.weights, deployment, hnone, List.flatMap_nil]
  have hperm := @weights_perm job parts loaded s [] 0 false h hintact
  rw [hweights, List.nil_perm, List.map_eq_nil_iff] at hperm
  exact hintact.tensors_ne hperm

/-- All ranks are in the local topology. -/
theorem gathered_covers {rank : Rank} (hrank : rank < job.worldSize) :
    Covers (job.gathered loaded s).localRdmaDevices rank := by
  refine (gatherMetas_covers s _).mpr (.inl ?_)
  rw [List.length_map, List.length_range]
  exact hrank

/-- All that an update of these metas asks of its deployment holds, but for the topologies. -/
theorem Registered.wellFormed_of (h : job.Registered parts loaded) (hintact : job.Intact parts)
    {d : Deployment} (hmetas : d.globalMetas = (job.gathered loaded s).currentGlobalParameterMetas)
    (hfits : ∀ owner ∈ d.globalMetas, ∀ source ∈ owner.2.memoryBufferMetasList,
      ∀ param ∈ source.metas, param.alignedSize ≤ d.bucketSize)
    (hworld : d.ranks = [] → d.worldSize = job.worldSize)
    (htopo : d.ranks ≠ [] → (∃ group ∈ d.localTopo, ∃ rank ∈ group.2, rank ∈ d.ranks) ∧
      ∀ owner ∈ d.globalMetas, (rankToRdmaDevice d.remoteTopo owner.1).isSome) :
    d.WellFormed := by
  have howners : ∀ owner ∈ d.globalMetas, ∃ rank < job.worldSize, (loaded rank).buffers ≠ [] ∧
      (rank, (job.record loaded rank).toMemoryBufferMetaList) = owner := by
    rw [hmetas]
    exact fun _ => mem_gathered_metas.mp
  constructor
  · constructor
    · rw [hmetas]
      exact @gathered_keys_nodup job loaded s
    · intro owner howner
      refine ⟨hfits owner howner, ?_⟩
      obtain ⟨rank, hrank, hbuffers, rfl⟩ := howners owner howner
      exact h.hasBytes hintact hrank hbuffers
  · rw [hmetas]
    exact @gathered_ne job parts loaded s h hintact
  · intro owner howner source hsource
    obtain ⟨rank, hrank, -, rfl⟩ := howners owner howner
    obtain ⟨b, hb, rfl⟩ := List.mem_map.mp hsource
    exact (h.tiled hrank b hb).2
  · intro owner howner source hsource
    obtain ⟨rank, hrank, -, rfl⟩ := howners owner howner
    obtain ⟨b, hb, rfl⟩ := List.mem_map.mp hsource
    exact h.room hintact hrank b hb
  · intro hranks owner howner
    obtain ⟨rank, hrank, -, rfl⟩ := howners owner howner
    rw [hworld hranks]
    exact hrank
  · exact htopo

/-- All that an update asks of its deployment holds. -/
theorem Registered.wellFormed (h : job.Registered parts loaded) (hintact : job.Intact parts)
    (hranks : ranks = [] ∨ ∃ rank ∈ ranks, rank < job.worldSize) {freeBytes maxBytes : Nat}
    {disabled : Bool}
    (hdetect : detectBucketSize (job.gathered loaded s).currentGlobalParameterMetas freeBytes
      maxBytes disabled = .ok (bucketSize, disableH2dBuffer)) :
    (job.deployment loaded s ranks bucketSize disableH2dBuffer).WellFormed := by
  refine @wellFormed_of job parts loaded s h hintact
    (job.deployment loaded s ranks bucketSize disableH2dBuffer) rfl
    (fun owner => detectBucketSize_fits hdetect owner) (fun _ => rfl) fun hne => ?_
  obtain ⟨rank, hmem, hrank⟩ := hranks.resolve_left hne
  obtain ⟨group, hgroup, hin⟩ := @gathered_covers job loaded s rank hrank
  refine ⟨⟨group, hgroup, rank, hin, hmem⟩, fun owner howner => ?_⟩
  exact covers_iff_device.mp (gatherMetas_matched owner howner)

end Gathering

end Job

/-! ## The update -/

/-- However the ranks list the directory, register, gather and update, with or without
`ranks`: every worker is handed every tensor of the checkpoint, once, with the dtype, the
shape and the bytes that it has in its file. -/
theorem checkpoint_reaches_workers (job : Job) (s : ServerMetas)
    {parts : Rank → List String × TensorDict} {loaded : Rank → Loaded}
    (h : job.Registered parts loaded) (hintact : job.Intact parts) {ranks : List Rank}
    (hranks : ranks = [] ∨ ∃ rank ∈ ranks, rank < job.worldSize)
    {freeBytes maxBytes bucketSize : Nat} {disabled disableH2dBuffer : Bool}
    (hdetect : detectBucketSize (job.gathered loaded s).currentGlobalParameterMetas freeBytes
      maxBytes disabled = .ok (bucketSize, disableH2dBuffer)) :
    (∃ u, (job.deployment loaded s ranks bucketSize disableH2dBuffer).Runs u) ∧
      ∀ u, (job.deployment loaded s ranks bucketSize disableH2dBuffer).Runs u →
        Hands u (job.tensors.map weight) := by
  have hwell := h.wellFormed hintact hranks hdetect
  exact ⟨hwell.exists_runs, fun u hrun =>
    (hands_of_runs hwell hrun).of_perm (h.weights_perm hintact)⟩

/-- Two ranks load two files. -/
def twoFilesJob : Job where
  directory := twoFilesDirectory
  disk := twoFiles
  index := none
  worldSize := 2
  listdir := unequalListings
  inplacePin _ := true
  device _ := ⟨fun k => 4096 * (k + 1), fun _ => none⟩
  start _ _ := 0
  p2pStoreAddr _ := none
  rdmaDevice _ := ""
  hostIp _ := "10.0.0.1"
  deviceUuid _ := ""
  worldSize_pos := by decide
  listdir_perm := unequalListings_perm
  keys_nodup := by simp

/-- Each takes one of them. -/
def twoFilesParts (rank : Rank) : List String × TensorDict :=
  (if rank = 0 then ["/ckpt/a.safetensors"] else ["/ckpt/b.safetensors"], .empty)

/-- The buffer of a rank. -/
def twoFilesBuffers (rank : Rank) : List MemoryBuffer :=
  [⟨⟨4096, 256⟩, 256, [⟨if rank = 0 then "u" else "v", .uint8, [1], 256⟩], false⟩]

theorem forall_lt_two {P : Rank → Prop} (hzero : P 0) (hone : P 1) : ∀ rank < 2, P rank := by
  intro rank hrank
  cases rank with
  | zero => exact hzero
  | succ rank =>
      obtain rfl := Nat.lt_one_iff.mp (Nat.lt_of_succ_lt_succ hrank)
      exact hone

theorem twoFilesJob_registered : ∃ loaded, twoFilesJob.Registered twoFilesParts loaded ∧
    ∀ rank < 2, (loaded rank).buffers = twoFilesBuffers rank := by
  have hregisters : ∀ rank < 2, ∃ memory, RegistersCheckpoint twoFiles
      (twoFilesJob.device rank) (twoFilesParts rank).1 .empty true (fun _ => 0)
        ⟨twoFilesBuffers rank, memory⟩ := by
    refine forall_lt_two ?_ ?_
    · exact exists_registersCheckpoint rfl List.nodup_nil
    · exact exists_registersCheckpoint rfl List.nodup_nil
  obtain ⟨memory, hmemory⟩ := hregisters 0 (by decide)
  obtain ⟨other, hother⟩ := hregisters 1 (by decide)
  refine ⟨fun rank => ⟨twoFilesBuffers rank, if rank = 0 then memory else other⟩, ⟨?_, ?_, ?_⟩,
    fun _ _ => rfl⟩
  · exact forall_lt_two rfl rfl
  · refine forall_lt_two ?_ ?_
    · exact ⟨twoFiles, fun _ _ => rfl, hmemory⟩
    · exact ⟨twoFiles, fun _ _ => rfl, hother⟩
  · exact fun _ _ => List.pairwise_singleton _ _

theorem twoFilesJob_intact : twoFilesJob.Intact twoFilesParts := by
  refine ⟨by decide, List.cons_ne_nil _ _, ?_⟩
  refine forall_lt_two (fun _ => ?_) fun _ => ?_
  · exact ⟨_, List.mem_cons_self, by decide⟩
  · exact ⟨_, List.mem_cons_self, by decide⟩

theorem checkpoint_reaches_workers_twoFiles : ∃ loaded,
    twoFilesJob.Registered twoFilesParts loaded ∧
      (twoFilesJob.tensors.map weight).map (·.bytes) = [[1], [2]] ∧
      (∃ u, (twoFilesJob.deployment loaded (.fresh 0 2 2 (by decide)) [] 256 false).Runs u) ∧
      ∀ u, (twoFilesJob.deployment loaded (.fresh 0 2 2 (by decide)) [] 256 false).Runs u →
        Hands u (twoFilesJob.tensors.map weight) := by
  obtain ⟨loaded, hregistered, hbuffers⟩ := twoFilesJob_registered
  refine ⟨loaded, hregistered, rfl, ?_⟩
  have hmetas : (twoFilesJob.gathered loaded (.fresh 0 2 2 (by decide))
      ).currentGlobalParameterMetas = (List.range 2).filterMap fun rank =>
        if (announced (twoFilesBuffers rank)).isEmpty then none
        else some (rank, ⟨none, announced (twoFilesBuffers rank), ""⟩) := by
    rw [Job.gathered_metas]
    refine List.filterMap_congr fun rank hrank => ?_
    simp only [Job.record, hbuffers rank (List.mem_range.mp hrank)]
    rfl
  have hdetect : detectBucketSize (twoFilesJob.gathered loaded (.fresh 0 2 2 (by decide))
      ).currentGlobalParameterMetas 768 0 false = .ok (256, false) := by
    rw [hmetas]
    rfl
  exact checkpoint_reaches_workers twoFilesJob _ hregistered twoFilesJob_intact (.inl rfl) hdetect

end CheckpointEngine.Launch
