/-
  `Plan.MetasLoading`: what `load_metas` leaves behind, and whether the metas and the
  remote topology of a server belong together.

  `load_metas` replaces both before it looks at the owners, and its loop stops at the
  first owner without an address.
-/
import CheckpointEngine.Plan.Topologies

set_option autoImplicit false

namespace CheckpointEngine.Plan

open CheckpointEngine.Foundation

/-- The owner has the address of a P2P store. -/
def HasAddress (owner : Rank × MemoryBufferMetaList) : Prop := owner.2.p2pStoreAddr ≠ none

instance (owner : Rank × MemoryBufferMetaList) : Decidable (HasAddress owner) :=
  inferInstanceAs (Decidable (_ ≠ _))

/-- The group of an owner; one without an address is in none. -/
def enterOwner (topo : Topology) (owner : Rank × MemoryBufferMetaList) : Topology :=
  match owner.2.p2pStoreAddr with
  | none => topo
  | some addr => addRank (rdmaKey owner.2.rdmaDevice addr) owner.1 topo

/-- The groups of these owners. -/
def groupsOf (owners : GlobalMetas) : Topology := owners.foldl enterOwner []

/-- The owners that come before the first one without an address. -/
def addressed (metas : GlobalMetas) : GlobalMetas := metas.takeWhile fun owner => HasAddress owner

/-- Every owner in the metas is in a group of the remote topology. -/
def ServerMetas.Matched {Size : Type} (s : ServerMetas Size) : Prop :=
  ∀ owner ∈ s.currentGlobalParameterMetas, Covers s.remoteRdmaDevices owner.1

/-- A load that raises changes neither the metas nor the remote topology. -/
def LoadIsAtomic (s : ServerMetas) (metas : GlobalMetas) : Prop :=
  ∀ e t, s.loadMetas metas = .raised e t →
    t.currentGlobalParameterMetas = s.currentGlobalParameterMetas ∧
      t.remoteRdmaDevices = s.remoteRdmaDevices

/-! ## The loop of `load_metas` -/

theorem enterOwners_of_addresses {metas : GlobalMetas} (h : ∀ owner ∈ metas, HasAddress owner) :
    ∀ topo, enterOwners metas topo = .returned (metas.foldl enterOwner topo) := by
  induction metas with
  | nil => exact fun _ => rfl
  | cons owner rest ih =>
      intro topo
      obtain ⟨i, items⟩ := owner
      obtain ⟨addr, haddr⟩ := Option.ne_none_iff_exists'.mp (h _ List.mem_cons_self)
      have hrest := ih fun owner howner => h owner (List.mem_cons_of_mem _ howner)
      simp only [enterOwners, enterOwner, List.foldl_cons] at haddr ⊢
      rw [haddr]
      exact hrest _

/-- The loop raises at the first owner without an address, when those before it have been
entered. -/
theorem enterOwners_of_no_address {metas : GlobalMetas} (h : ¬ ∀ owner ∈ metas, HasAddress owner) :
    ∀ topo, enterOwners metas topo =
      .raised (.assertionError "meta.p2p_store_addr should not be None")
        ((addressed metas).foldl enterOwner topo) := by
  induction metas with
  | nil => exact absurd (fun _ hmem => absurd hmem List.not_mem_nil) h
  | cons owner rest ih =>
      intro topo
      obtain ⟨i, items⟩ := owner
      rw [List.forall_mem_cons, not_and] at h
      cases haddr : items.p2pStoreAddr with
      | none => simp [enterOwners, addressed, HasAddress, haddr]
      | some addr =>
          have howner : HasAddress (i, items) := by simp [HasAddress, haddr]
          have hrest := ih (h howner) (addRank (rdmaKey items.rdmaDevice addr) i topo)
          simp only [enterOwners, haddr, hrest, addressed, List.takeWhile_cons, howner,
            decide_true, if_true, List.foldl_cons, enterOwner]

theorem loadMetas_of_addresses {s : ServerMetas} {metas : GlobalMetas}
    (h : ∀ owner ∈ metas, HasAddress owner) :
    s.loadMetas metas = .returned
      { s with currentGlobalParameterMetas := metas, remoteRdmaDevices := groupsOf metas } := by
  simp only [ServerMetas.loadMetas, enterOwners_of_addresses h, groupsOf]

theorem loadMetas_of_no_address {s : ServerMetas} {metas : GlobalMetas}
    (h : ¬ ∀ owner ∈ metas, HasAddress owner) :
    s.loadMetas metas = .raised (.assertionError "meta.p2p_store_addr should not be None")
      { s with
        currentGlobalParameterMetas := metas
        remoteRdmaDevices := groupsOf (addressed metas) } := by
  simp only [ServerMetas.loadMetas, enterOwners_of_no_address h, groupsOf]

/-- A load is atomic if and only if all owners have an address, or the server is already in
the state such a load leaves. -/
theorem loadIsAtomic_iff {s : ServerMetas} {metas : GlobalMetas} :
    LoadIsAtomic s metas ↔ (∀ owner ∈ metas, HasAddress owner) ∨
      metas = s.currentGlobalParameterMetas ∧
        groupsOf (addressed metas) = s.remoteRdmaDevices := by
  by_cases h : ∀ owner ∈ metas, HasAddress owner
  · refine iff_of_true ?_ (.inl h)
    intro e t hraised
    rw [loadMetas_of_addresses h] at hraised
    cases hraised
  · rw [or_iff_right h, LoadIsAtomic, loadMetas_of_no_address h]
    constructor
    · exact fun hatomic => hatomic _ _ rfl
    · intro hsame e t hraised
      obtain ⟨-, rfl⟩ := Outcome.raised.inj hraised
      exact hsame

/-! ## Owners and groups -/

theorem covers_foldl_enterOwner {r : Rank} (owners : GlobalMetas) :
    ∀ {topo : Topology},
      Covers (owners.foldl enterOwner topo) r ↔
        (∃ owner ∈ owners, HasAddress owner ∧ owner.1 = r) ∨ Covers topo r := by
  induction owners with
  | nil => intro topo; simp
  | cons owner rest ih =>
      intro topo
      simp only [List.foldl_cons, ih, List.mem_cons, exists_eq_or_imp]
      cases haddr : owner.2.p2pStoreAddr with
      | none => simp [enterOwner, HasAddress, haddr]
      | some addr =>
          simp only [enterOwner, haddr, covers_addRank, HasAddress, ne_eq, reduceCtorEq,
            not_false_eq_true, true_and, @eq_comm _ r owner.1]
          exact or_left_comm.trans or_assoc.symm

/-- A load all of whose owners have an address leaves them covered. -/
theorem loadMetas_matched {s : ServerMetas} {metas : GlobalMetas}
    (h : ∀ owner ∈ metas, HasAddress owner) : (s.loadMetas metas).state.Matched := by
  rw [loadMetas_of_addresses h]
  intro owner howner
  apply (covers_foldl_enterOwner metas).mpr
  exact .inl ⟨owner, howner, h owner howner, rfl⟩

/-- A gather leaves its owners covered. -/
theorem gatherMetas_matched {Size : Type} {s : ServerMetas Size}
    {metasLst : List (DataToGather Size)} :
    (s.gatherMetas metasLst).Matched := by
  intro owner howner
  change Covers (s.gatherMetas metasLst).localRdmaDevices owner.1
  rw [gatherMetas_covers]
  left
  obtain ⟨⟨data, i⟩, hmem, hsome⟩ := List.mem_filterMap.mp howner
  simp only [Option.ite_none_left_eq_some] at hsome
  obtain rfl := Option.some.inj hsome.2
  exact (List.getElem?_eq_some_iff.mp (List.mk_mem_zipIdx_iff_getElem?.mp hmem)).1

/-- The ranks in the groups are those a device is found for. -/
theorem covers_iff_device {topo : Topology} {rank : Rank} :
    Covers topo rank ↔ (rankToRdmaDevice topo rank).isSome := by
  rw [rankToRdmaDevice, List.lookup_isSome_iff, Covers]
  constructor
  · intro h
    obtain ⟨group, hgroup, hrank⟩ := h
    refine ⟨(rank, group.1), List.mem_reverse.mpr ?_, beq_self_eq_true rank⟩
    exact List.mem_flatMap.mpr ⟨group, hgroup, List.mem_map_of_mem hrank⟩
  · intro h
    obtain ⟨entry, hentry, hrank⟩ := h
    obtain ⟨group, hgroup, hmem⟩ := List.mem_flatMap.mp (List.mem_reverse.mp hentry)
    obtain ⟨r, hr, rfl⟩ := List.mem_map.mp hmem
    obtain rfl := eq_of_beq hrank
    exact ⟨group, hgroup, hr⟩

/-- The computation does not raise a `KeyError`. -/
def NoKeyError {α : Type} (x : Except PyError α) : Prop := ∀ key, x ≠ .error (.keyError key)

theorem NoKeyError.bind {α β : Type} {x : Except PyError α} {f : α → Except PyError β}
    (hx : NoKeyError x) (hf : ∀ a, NoKeyError (f a)) : NoKeyError (x >>= f) := by
  cases x with
  | error e =>
      intro key h
      obtain rfl := Except.error.inj h
      exact hx key rfl
  | ok a => exact hf a

theorem NoKeyError.ok {α : Type} (a : α) : NoKeyError (.ok a) := fun _ h => by cases h

theorem ownerBuckets_noKeyError (bucketSize : Nat) (buffers : List MemoryBufferMetas) :
    NoKeyError (ownerBuckets bucketSize buffers) := by
  intro key h
  simp only [ownerBuckets] at h
  split at h
  · cases h
  · cases Except.error.inj h

theorem allBuckets_noKeyError (bucketSize : Nat) (globalMetas : GlobalMetas) :
    NoKeyError (allBuckets bucketSize globalMetas) := by
  induction globalMetas with
  | nil => exact .ok _
  | cons owner rest ih =>
      apply (ownerBuckets_noKeyError bucketSize owner.2.memoryBufferMetasList).bind
      exact fun _ => ih.bind fun _ => .ok _

theorem receiverList_noKeyError (localTopo : Topology) (n : Nat) :
    NoKeyError (receiverList localTopo n) := by
  rw [receiverList]
  induction (localTopo.map Prod.snd).take n with
  | nil => exact .ok _
  | cons ranks rest ih =>
      rw [List.mapM_cons]
      apply NoKeyError.bind
      · intro key h
        split at h <;> cases h
      · exact fun _ => ih.bind fun _ => .ok _

/-- The owners whose buckets are assigned have a device. -/
theorem assignReceiverRanks_noKeyError {T : Type} {buckets : List (Rank × T)}
    (localTopo : Topology) {remoteTopo : Topology}
    (h : ∀ b ∈ buckets, Covers remoteTopo b.1) :
    NoKeyError (assignReceiverRanks buckets localTopo remoteTopo) := by
  have hfind : buckets.find? (fun b => (rankToRdmaDevice remoteTopo b.1).isNone) = none := by
    apply List.find?_eq_none.mpr
    intro b hb
    simpa [Option.isSome_iff_ne_none] using covers_iff_device.mp (h b hb)
  unfold assignReceiverRanks
  split
  · exact .ok _
  · rw [hfind]
    apply (receiverList_noKeyError _ _).bind
    exact fun _ => .ok _

/-- The planner finds a device for each owner of a server whose metas and remote topology
belong together. -/
theorem ServerMetas.Matched.noKeyError {s : ServerMetas} (h : s.Matched) (bucketSize : Nat)
    (localTopo : Topology) (ranks : List Rank) :
    NoKeyError (genH2dBuckets s.currentGlobalParameterMetas bucketSize localTopo
      s.remoteRdmaDevices ranks) := by
  rw [genH2dBuckets]
  cases hbuckets : allBuckets bucketSize s.currentGlobalParameterMetas with
  | error e =>
      intro key herror
      obtain rfl := Except.error.inj herror
      exact allBuckets_noKeyError _ _ key hbuckets
  | ok buckets =>
      have howners : ∀ b ∈ buckets, Covers s.remoteRdmaDevices b.1 := by
        intro b hb
        obtain ⟨owner, howner, heq⟩ := List.mem_map.mp ((allBuckets_owners hbuckets).1 b hb)
        rw [← heq]
        exact h owner howner
      change NoKeyError (if ranks.isEmpty then _ else _)
      split
      · exact .ok _
      · exact assignReceiverRanks_noKeyError _ howners

/-! ## Runs -/

/-- A call as its caller sees it.  A gather that raises does so before it has the records of
all ranks, when it has changed nothing. -/
inductive MetasAttempt where
  | call (call : MetasCall)
  | gatherRaises
  deriving DecidableEq

def ServerMetas.attempt (s : ServerMetas) : MetasAttempt → Option ServerMetas
  | .call call => s.call call
  | .gatherRaises => some s

/-- A server from its construction on, under any calls, successful or raising. -/
def ServerMetas.attempts (rank worldSize gpuCount : Nat) (h : rank < worldSize) :
    Machine ServerMetas MetasAttempt where
  init := .fresh rank worldSize gpuCount h
  step := ServerMetas.attempt

/-- The owners the call loads, if any, all have an address. -/
def LoadsAddresses (_ : ServerMetas) : MetasAttempt → Prop
  | .call (.loadMetas metas) => ∀ owner ∈ metas, HasAddress owner
  | .call (.gatherMetas _) | .gatherRaises => True

instance (s : ServerMetas) : (c : MetasAttempt) → Decidable (LoadsAddresses s c)
  | .call (.loadMetas metas) => inferInstanceAs (Decidable (∀ owner ∈ metas, HasAddress owner))
  | .call (.gatherMetas _) | .gatherRaises => .isTrue trivial

theorem attempt_matched {s t : ServerMetas} {c : MetasAttempt} (h : s.Matched)
    (hc : LoadsAddresses s c) (hstep : s.attempt c = some t) : t.Matched := by
  cases c with
  | gatherRaises =>
      obtain rfl := Option.some.inj hstep
      exact h
  | call c =>
      cases c with
      | loadMetas metas =>
          obtain rfl := Option.some.inj hstep
          exact loadMetas_matched hc
      | gatherMetas metasLst =>
          rw [ServerMetas.attempt, ServerMetas.call, Option.ite_none_right_eq_some] at hstep
          obtain rfl := Option.some.inj hstep.2
          exact gatherMetas_matched

/-- A load is atomic exactly where all its owners have an address or it leaves what was there
before; and in every run whose loads have addresses, the metas and the remote topology belong
together, so that no update misses a device. -/
theorem load_atomic_and_matched (s : ServerMetas) (metas : GlobalMetas) :
    (LoadIsAtomic s metas ↔
      (∀ owner ∈ metas, HasAddress owner) ∨
        metas = s.currentGlobalParameterMetas ∧
          groupsOf (addressed metas) = s.remoteRdmaDevices) ∧
    (∀ (rank worldSize gpuCount : Nat) (h : rank < worldSize),
      (ServerMetas.attempts rank worldSize gpuCount h).ReachableBy LoadsAddresses s →
      s.Matched ∧ ∀ bucketSize localTopo ranks,
        NoKeyError (genH2dBuckets s.currentGlobalParameterMetas bucketSize localTopo
          s.remoteRdmaDevices ranks)) := by
  refine ⟨loadIsAtomic_iff, ?_⟩
  intro rank worldSize gpuCount hrank hs
  have hmatched : s.Matched := by
    apply Machine.ReachableBy.invariant (I := ServerMetas.Matched) _ _ hs
    · intro owner howner
      exact absurd howner List.not_mem_nil
    · exact fun _ _ _ => attempt_matched
  exact ⟨hmatched, hmatched.noKeyError⟩

/-- A server that gathers after a gather that raised, and then loads one owner. -/
theorem load_atomic_and_matched_oneOwner :
    ∃ s, (ServerMetas.attempts 0 1 1 Nat.one_pos).ReachableBy LoadsAddresses s ∧
      s.currentGlobalParameterMetas = oneOwnerMetas ∧ s.Matched := by
  obtain ⟨s, hreach, hmetas⟩ :=
    @Machine.ReachableBy.of_runBy _ _ (ServerMetas.attempts 0 1 1 Nat.one_pos) LoadsAddresses _
      (fun s => s.currentGlobalParameterMetas = oneOwnerMetas) _
      [.gatherRaises, .call (.gatherMetas [oneOwnerData]), .call (.loadMetas oneOwnerMetas)]
      (by decide)
  exact ⟨s, hreach, hmetas, ((load_atomic_and_matched s []).2 0 1 1 Nat.one_pos hreach).1⟩

/-- The metas of an owner whose sender has no P2P store. -/
def noAddressMetas : GlobalMetas := [(0, { oneOwnerData with p2pStoreAddr := none })]

/-- Loading them raises, replaces the metas and empties the remote topology; an update then
misses the owner's device. -/
theorem loadNoAddress_leaves_unmatched :
    (∃ s metas, ¬ LoadIsAtomic s metas) ∧
      ∃ s, (ServerMetas.attempts 0 1 1 Nat.one_pos).Reachable s ∧ ¬ s.Matched ∧
        genH2dBuckets s.currentGlobalParameterMetas 256 s.localRdmaDevices s.remoteRdmaDevices
          [0] = .error (.keyError "0") := by
  have hmissing : ¬ ∀ owner ∈ noAddressMetas, HasAddress owner := by decide
  let s : ServerMetas := .fresh 0 1 1 Nat.one_pos
  refine ⟨⟨s, noAddressMetas, ?_⟩, (s.loadMetas noAddressMetas).state, ?_, ?_, ?_⟩
  · rw [loadIsAtomic_iff]
    decide
  · exact @Machine.Reachable.step _ _ (ServerMetas.attempts 0 1 1 Nat.one_pos) _ _
      (.call (.loadMetas noAddressMetas)) .init rfl
  · intro hmatched
    obtain ⟨_, hgroup, _⟩ := hmatched _ List.mem_cons_self
    cases hgroup
  · decide

end CheckpointEngine.Plan
