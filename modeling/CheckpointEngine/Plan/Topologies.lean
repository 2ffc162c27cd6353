/-
  `Plan.Topologies`: the metas and the two topologies of a `ParameterServer`,
  `load_metas` and `gather_metas` in `checkpoint_engine/ps.py`.

  `gather_metas` gathers one record of every rank and replaces the metas and the
  remote topology; the local topology it only extends, so after one gather every
  rank is in it for good.  `load_metas` replaces the metas and the remote topology
  and does not look at the local one.
-/
import CheckpointEngine.Plan.Assignment
import CheckpointEngine.Foundation.Machine
import CheckpointEngine.Foundation.Fallible

set_option autoImplicit false

namespace CheckpointEngine.Plan

open CheckpointEngine.Foundation

/-- What `gather_metas` sends of a rank. -/
structure DataToGather (Size : Type := Nat) extends MemoryBufferMetaList Size where
  hostIp : String
  deviceUuid : String
  deriving DecidableEq, Repr, Inhabited

/-- The fields of a `ParameterServer` that the two calls read or write.  The process
group has the ranks below `worldSize`. -/
structure ServerMetas (Size : Type := Nat) where
  rank : Rank
  worldSize : Nat
  gpuCount : Nat
  currentGlobalParameterMetas : GlobalMetas Size
  allHosts : List String
  globalDeviceUuids : List String
  localRdmaDevices : Topology
  remoteRdmaDevices : Topology
  rank_lt : rank < worldSize
  deriving DecidableEq

variable {Size : Type}

/-- The fields after `__init__`. -/
def ServerMetas.fresh (rank worldSize gpuCount : Nat) (h : rank < worldSize) :
    ServerMetas Size :=
  ⟨rank, worldSize, gpuCount, [], [], [], [], [], h⟩

/-- `topo[device].add(rank)` on a `defaultdict(set)`. -/
def addRank (device : String) (rank : Rank) : Topology → Topology
  | [] => [(device, [rank])]
  | (device', ranks) :: rest =>
      if device' = device then
        (device', if rank ∈ ranks then ranks else ranks ++ [rank]) :: rest
      else
        (device', ranks) :: addRank device rank rest

/-- `addr.split(":")[0]`. -/
def hostOf (addr : String) : String := String.ofList (addr.toList.takeWhile (· ≠ ':'))

/-- The key a rank with a P2P store is entered under. -/
def rdmaKey (rdmaDevice p2pStoreAddr : String) : String :=
  rdmaDevice ++ "@" ++ hostOf p2pStoreAddr

/-- The loop of `load_metas`: the remote topology, up to the owner that has no
address. -/
def enterOwners : GlobalMetas Size → Topology → Outcome PyError Topology
  | [], topo => .returned topo
  | (i, items) :: rest, topo =>
      match items.p2pStoreAddr with
      | none => .raised (.assertionError "meta.p2p_store_addr should not be None") topo
      | some addr => enterOwners rest (addRank (rdmaKey items.rdmaDevice addr) i topo)

/-- `load_metas`. -/
def ServerMetas.loadMetas (s : ServerMetas Size) (metas : GlobalMetas Size) :
    Outcome PyError (ServerMetas Size) :=
  let s := { s with currentGlobalParameterMetas := metas, remoteRdmaDevices := [] }
  match enterOwners metas [] with
  | .returned topo => .returned { s with remoteRdmaDevices := topo }
  | .raised e topo => .raised e { s with remoteRdmaDevices := topo }

/-- The key a gathered rank is entered under; without an address (`None` or empty)
it is the host. -/
def localKey (data : DataToGather Size) : String :=
  match data.p2pStoreAddr with
  | some addr => if addr = "" then data.hostIp else rdmaKey data.rdmaDevice addr
  | none => data.hostIp

/-- `gather_metas` from the point where all ranks' records are there.  What it does
before that leaves these fields alone. -/
def ServerMetas.gatherMetas (s : ServerMetas Size) (metasLst : List (DataToGather Size)) :
    ServerMetas Size :=
  let localRdmaDevices := metasLst.zipIdx.foldl
    (fun topo (data, i) => addRank (localKey data) i topo) s.localRdmaDevices
  { s with
    currentGlobalParameterMetas := metasLst.zipIdx.filterMap fun (data, i) =>
      if data.memoryBufferMetasList.isEmpty then none else some (i, data.toMemoryBufferMetaList)
    allHosts :=
      if s.allHosts.isEmpty then
        (metasLst.zipIdx.filter (·.2 % s.gpuCount = 0)).map (·.1.hostIp)
      else s.allHosts
    globalDeviceUuids :=
      if s.globalDeviceUuids.isEmpty then metasLst.map (·.deviceUuid) else s.globalDeviceUuids
    localRdmaDevices
    remoteRdmaDevices := localRdmaDevices }

/-- A call on the server; a gather comes with the records of all ranks. -/
inductive MetasCall where
  | loadMetas (metas : GlobalMetas)
  | gatherMetas (metasLst : List DataToGather)
  deriving DecidableEq

/-- The effect of a call, whether it returns or raises. -/
def ServerMetas.call (s : ServerMetas) : MetasCall → Option ServerMetas
  | .loadMetas metas => some (s.loadMetas metas).state
  | .gatherMetas metasLst =>
      if metasLst.length = s.worldSize then some (s.gatherMetas metasLst) else none

/-- A server from its construction on, under any calls. -/
def ServerMetas.machine (rank worldSize gpuCount : Nat) (h : rank < worldSize) :
    Machine ServerMetas MetasCall where
  init := .fresh rank worldSize gpuCount h
  step := ServerMetas.call

/-! ## The local topology -/

/-- The rank is in one of the groups. -/
def Covers (topo : Topology) (rank : Rank) : Prop := ∃ group ∈ topo, rank ∈ group.2

theorem covers_addRank {device : String} {rank r : Rank} {topo : Topology} :
    Covers (addRank device rank topo) r ↔ r = rank ∨ Covers topo r := by
  unfold Covers
  induction topo with
  | nil => simp [addRank]
  | cons group rest ih =>
      obtain ⟨device', ranks⟩ := group
      by_cases hdevice : device' = device
      · by_cases hrank : rank ∈ ranks
        · simp only [addRank, hdevice, hrank, if_true, List.mem_cons, exists_eq_or_imp]
          constructor
          · exact .inr
          · rintro (rfl | h)
            · exact .inl hrank
            · exact h
        · simp only [addRank, hdevice, hrank, if_true, if_false, List.mem_cons,
            exists_eq_or_imp, List.mem_append, List.not_mem_nil, or_false]
          tauto
      · simp only [addRank, hdevice, if_false, List.mem_cons, exists_eq_or_imp, ih]
        tauto

theorem covers_foldl_addRank {r : Rank} (entries : List (DataToGather Size × Nat)) :
    ∀ {topo : Topology},
      Covers (entries.foldl (fun topo (data, i) => addRank (localKey data) i topo) topo) r ↔
        r ∈ entries.map Prod.snd ∨ Covers topo r := by
  induction entries with
  | nil => intro topo; simp
  | cons entry rest ih =>
      intro topo
      rw [List.foldl_cons, ih, covers_addRank, List.map_cons, List.mem_cons]
      tauto

/-- After a gather every rank of the process group is in the local topology. -/
theorem gatherMetas_covers (s : ServerMetas Size) (metasLst : List (DataToGather Size)) {r : Rank} :
    Covers (s.gatherMetas metasLst).localRdmaDevices r ↔
      r < metasLst.length ∨ Covers s.localRdmaDevices r := by
  rw [ServerMetas.gatherMetas, covers_foldl_addRank, List.zipIdx_map_snd]
  simp

theorem loadMetas_local (s : ServerMetas Size) (metas : GlobalMetas Size) :
    (s.loadMetas metas).state.localRdmaDevices = s.localRdmaDevices := by
  unfold ServerMetas.loadMetas
  cases enterOwners metas [] <;> rfl

theorem loadMetas_rank (s : ServerMetas Size) (metas : GlobalMetas Size) :
    (s.loadMetas metas).state.rank = s.rank := by
  unfold ServerMetas.loadMetas
  cases enterOwners metas [] <;> rfl

/-- No call takes a rank out of the local topology. -/
theorem call_covers {s t : ServerMetas} {c : MetasCall} (h : s.call c = some t) :
    t.rank = s.rank ∧ (Covers s.localRdmaDevices s.rank → Covers t.localRdmaDevices t.rank) := by
  cases c with
  | loadMetas metas =>
      obtain rfl := Option.some.inj h
      rw [loadMetas_local, loadMetas_rank]
      exact ⟨rfl, id⟩
  | gatherMetas metasLst =>
      rw [ServerMetas.call, Option.ite_none_right_eq_some] at h
      obtain ⟨-, h⟩ := h
      obtain rfl := Option.some.inj h
      exact ⟨rfl, fun hc => (gatherMetas_covers s metasLst).mpr (.inr hc)⟩

/-- A gather enters the server's own rank. -/
theorem call_gatherMetas_covers {s t : ServerMetas} {metasLst : List DataToGather}
    (h : s.call (.gatherMetas metasLst) = some t) : Covers t.localRdmaDevices t.rank := by
  rw [ServerMetas.call, Option.ite_none_right_eq_some] at h
  obtain ⟨hlength, h⟩ := h
  obtain rfl := Option.some.inj h
  exact (gatherMetas_covers s metasLst).mpr (.inl (hlength ▸ s.rank_lt))

/-- A run with a gather in it leaves the server's own rank in the local topology. -/
theorem run_covers {rank worldSize gpuCount : Nat} {hrank : rank < worldSize} :
    ∀ {calls : List MetasCall} {s t : ServerMetas},
      (ServerMetas.machine rank worldSize gpuCount hrank).run s calls = some t →
      (Covers s.localRdmaDevices s.rank ∨ ∃ metasLst, .gatherMetas metasLst ∈ calls) →
        Covers t.localRdmaDevices t.rank := by
  intro calls
  induction calls with
  | nil =>
      rintro s t h (hcovers | ⟨_, hmem⟩)
      · obtain rfl := Option.some.inj h
        exact hcovers
      · simp at hmem
  | cons c rest ih =>
      intro s t h hcase
      obtain ⟨s', hstep, hrest⟩ := Option.bind_eq_some_iff.mp h
      refine ih hrest ?_
      rcases hcase with hcovers | ⟨metasLst, hmem⟩
      · exact .inl ((call_covers hstep).2 hcovers)
      · rcases List.mem_cons.mp hmem with rfl | hmem
        · exact .inl (call_gatherMetas_covers hstep)
        · exact .inr ⟨metasLst, hmem⟩

/-! ## The receivers of an update -/

section Buckets

variable [OfNat Size 0] [Add Size] [Sub Size] [LT Size] [DecidableLT Size] [ToString Size]

theorem ownerBuckets_ne_nil {bucketSize : Size} {buffers : List (MemoryBufferMetas Size)}
    {own : List (H2DBucket Size)} (h : ownerBuckets bucketSize buffers = .ok own) : own ≠ [] := by
  obtain ⟨-, rfl⟩ := ownerBuckets_eq_ok.mp h
  simp

/-- The planner's buckets belong to owners, and every owner has one. -/
theorem allBuckets_owners {bucketSize : Size} :
    ∀ {globalMetas : GlobalMetas Size} {buckets : List (Rank × H2DBucket Size)},
      allBuckets bucketSize globalMetas = .ok buckets →
        (∀ b ∈ buckets, b.1 ∈ globalMetas.map Prod.fst) ∧
          (globalMetas ≠ [] → buckets ≠ []) := by
  intro globalMetas
  induction globalMetas with
  | nil =>
      intro buckets h
      obtain rfl := Except.ok.inj h
      simp
  | cons owner rest ih =>
      intro buckets h
      obtain ⟨own, hown, h⟩ := bind_eq_ok.mp h
      obtain ⟨others, hothers, h⟩ := bind_eq_ok.mp h
      obtain rfl := Except.ok.inj h
      refine ⟨?_, fun _ hnil => ?_⟩
      · intro b hb
        rcases List.mem_append.mp hb with hb | hb
        · obtain ⟨_, _, rfl⟩ := List.mem_map.mp hb
          exact List.mem_cons_self
        · exact List.mem_cons_of_mem _ ((ih hothers).1 b hb)
      · rw [List.append_eq_nil_iff, List.map_eq_nil_iff] at hnil
        exact ownerBuckets_ne_nil hown hnil.1

end Buckets

/-- Once metas have been gathered, whatever is loaded or gathered later, the buckets
of an update of a group with this rank are assigned: every pass of the loop assigns
one more bucket, and the loop ends. -/
theorem receiverAssignment_terminates {rank worldSize gpuCount : Nat} {hrank : rank < worldSize}
    {calls : List MetasCall} {s : ServerMetas}
    (hrun : (ServerMetas.machine rank worldSize gpuCount hrank).run
      (.fresh rank worldSize gpuCount hrank) calls = some s)
    (hgather : ∃ metasLst, .gatherMetas metasLst ∈ calls)
    (hmetas : s.currentGlobalParameterMetas ≠ [])
    (hremote : ∀ owner ∈ s.currentGlobalParameterMetas,
      (rankToRdmaDevice s.remoteRdmaDevices owner.1).isSome)
    {ranks : List Rank} (hranks : s.rank ∈ ranks) {bucketSize : Nat}
    {buckets : List (Rank × H2DBucket)}
    (hbuckets : allBuckets bucketSize s.currentGlobalParameterMetas = .ok buckets) :
    ∃ receivers out,
      receiversFor buckets (actualLocalTopo s.localRdmaDevices ranks) s.remoteRdmaDevices =
        .ok receivers ∧
      (∀ rest : List (Rank × H2DBucket), rest ≠ [] →
        (assignRound (deviceOf s.remoteRdmaDevices) receivers [] rest).2.length <
          rest.length) ∧
      genH2dBuckets s.currentGlobalParameterMetas bucketSize s.localRdmaDevices
        s.remoteRdmaDevices ranks = .ok (some out) := by
  have hcovers : Covers s.localRdmaDevices s.rank := run_covers hrun (.inr hgather)
  obtain ⟨group, hgroup, hmem⟩ := hcovers
  have hactual := actualLocalTopo_ne_nil ⟨group, hgroup, s.rank, hmem, hranks⟩
  obtain ⟨howners, hne⟩ := allBuckets_owners hbuckets
  have hdevices : ∀ b ∈ buckets, (rankToRdmaDevice s.remoteRdmaDevices b.1).isSome := by
    intro b hb
    obtain ⟨owner, howner, heq⟩ := List.mem_map.mp (howners b hb)
    rw [← heq]
    exact hremote owner howner
  obtain ⟨receivers, hok, hreceivers, -⟩ :=
    receiverList_ok hactual (groups_pos s.remoteRdmaDevices (hne hmetas))
  obtain ⟨out, hout, -⟩ := assignReceiverRanks_ok hactual hdevices
  refine ⟨receivers, out, hok, fun rest hrest => ?_, ?_⟩
  · exact assignRound_progress (deviceOf s.remoteRdmaDevices) hreceivers hrest
  · have hranks_ne : ranks.isEmpty = false := by
      simpa using List.ne_nil_of_mem hranks
    simp only [genH2dBuckets, hbuckets, hranks_ne]
    exact hout

/-- The record of a rank that owns one tensor. -/
def oneOwnerData : DataToGather :=
  { memoryBufferMetasList := [⟨[⟨"a", .uint8, [4], 256⟩], 4096, 256⟩]
    p2pStoreAddr := some "10.0.0.1:5000"
    rdmaDevice := "mlx5_0"
    hostIp := "10.0.0.1"
    deviceUuid := "GPU-0" }

/-- The metas of a sender with one owner, for `load_metas`. -/
def oneOwnerMetas : GlobalMetas := [(0, oneOwnerData.toMemoryBufferMetaList)]

/-- A server that has loaded these metas and not gathered any. -/
def loadedOnly : ServerMetas :=
  ((ServerMetas.fresh 0 1 1 Nat.one_pos).loadMetas oneOwnerMetas).state

/-- A server that has only loaded metas passes the checks of an update, but it has no
receiver and the loop over its buckets never ends. -/
theorem receiverAssignment_diverges :
    (ServerMetas.machine 0 1 1 Nat.one_pos).Reachable loadedOnly ∧
      loadedOnly.currentGlobalParameterMetas ≠ [] ∧
      (∀ owner ∈ loadedOnly.currentGlobalParameterMetas,
        (rankToRdmaDevice loadedOnly.remoteRdmaDevices owner.1).isSome) ∧
      loadedOnly.rank ∈ [0] ∧
      ∃ buckets, allBuckets 256 loadedOnly.currentGlobalParameterMetas = .ok buckets ∧
        receiversFor buckets (actualLocalTopo loadedOnly.localRdmaDevices [0])
          loadedOnly.remoteRdmaDevices = .ok [] ∧
        ∀ passes, assignWhile (deviceOf loadedOnly.remoteRdmaDevices) [] passes
          (flattenedBuckets loadedOnly.remoteRdmaDevices buckets) = none :=
  ⟨@Machine.Reachable.step _ _ (ServerMetas.machine 0 1 1 Nat.one_pos) _ _
    (.loadMetas oneOwnerMetas) .init rfl, by decide, by decide,
    by decide, [(0, ⟨256, [⟨0, 0, 256⟩], [⟨"a", .uint8, [4], 256⟩]⟩)], by decide, by decide,
    assignWhile_diverges _ (by decide)⟩

theorem receiverAssignment_terminates_gathered :
    ∃ receivers out,
      receiversFor [(0, (⟨256, [⟨0, 0, 256⟩], [⟨"a", .uint8, [4], 256⟩]⟩ : H2DBucket))]
        (actualLocalTopo
          ((ServerMetas.fresh 0 1 1 Nat.one_pos).gatherMetas [oneOwnerData]).localRdmaDevices [0])
        ((ServerMetas.fresh 0 1 1 Nat.one_pos).gatherMetas [oneOwnerData]).remoteRdmaDevices =
        .ok receivers ∧
      (∀ rest : List (Rank × H2DBucket), rest ≠ [] →
        (assignRound (deviceOf ((ServerMetas.fresh 0 1 1 Nat.one_pos).gatherMetas
          [oneOwnerData]).remoteRdmaDevices) receivers [] rest).2.length < rest.length) ∧
      genH2dBuckets
        ((ServerMetas.fresh 0 1 1 Nat.one_pos).gatherMetas
          [oneOwnerData]).currentGlobalParameterMetas 256
        ((ServerMetas.fresh 0 1 1 Nat.one_pos).gatherMetas [oneOwnerData]).localRdmaDevices
        ((ServerMetas.fresh 0 1 1 Nat.one_pos).gatherMetas [oneOwnerData]).remoteRdmaDevices [0] =
        .ok (some out) :=
  @receiverAssignment_terminates 0 1 1 Nat.one_pos [.gatherMetas [oneOwnerData]]
    ((ServerMetas.fresh 0 1 1 Nat.one_pos).gatherMetas [oneOwnerData]) rfl
    ⟨[oneOwnerData], by simp⟩ (by decide) (by decide) [0] (by decide) 256 _ (by decide)

end CheckpointEngine.Plan
