/-
  `Server.Orderly`: what holds of a backend between the calls that the server makes.

  The server uses at most one group at a time: the one that `new_group` has returned to the
  `update` in progress, in the world that is up, until the `finally` of that `update`.
-/
import CheckpointEngine.Server.ProcessGroups

set_option autoImplicit false

namespace CheckpointEngine.Server

open CheckpointEngine.Foundation
open CheckpointEngine.Foundation.Command
open CheckpointEngine.Distributed

/-- What is asked of the `new_group` of a backend. -/
structure MakesGroups (newGroup : Library → List Int → Method (Option CommGroup)) : Prop where
  creates : CreatesGroups newGroup
  keeps : NewGroupKeeps newGroup
  ofRanks : MakesGroupOf newGroup

theorem nccl_makesGroups : MakesGroups Nccl.newGroup :=
  ⟨Nccl.createsGroups, Nccl.newGroupKeeps, Nccl.makesGroupOf⟩

theorem hccl_makesGroups : MakesGroups Hccl.newGroup :=
  ⟨Hccl.createsGroups, Hccl.newGroupKeeps, Hccl.makesGroupOf⟩

/-- The call is permitted, and is no broadcast that would leave its group in place. -/
def Allowed (s : History) (turn : Turn) : Prop :=
  Permitted s turn ∧ FitsGroup s.self (turn.library, turn.call)

/-- The group object was made in the world that is up, and its communicator is left. -/
structure Holds (s : History) (o : GroupObject) : Prop where
  initialized : s.self.initialized = true
  stands : s.ledger.Stands o.group.handle o.number (.group s.worlds o.group.ranks)

/-- The communicator is that of the world that is up. -/
def OfWorld (s : History) (r : Resource Int Purpose) : Prop :=
  s.self.initialized = true ∧ s.self.comm = some r.handle

/-- Nothing but the world that is up and the group object in use is left. -/
def NothingElse (s : History) (object : Option GroupObject) : Prop :=
  ∀ {i r}, s.ledger.resources[i]? = some r → s.ledger.destroyed i = 0 →
    object.map GroupObject.number = some i ∨ OfWorld s r

/-- No group has been made in the world that is up, as far as the rank counts them. -/
def Untouched (s : History) : Prop :=
  s.self.initialized = true → ∀ c ∈ s.self.communicator, c.subcommId = 1

/-- Between two calls: the world communicator is in place, with the rank of the server, and
the group object in use is left.  Where `quiet`, nothing else is; where `fresh`, no group has
been made in the world. -/
structure Orderly (quiet fresh : Prop) (rank : Rank) (object : Option GroupObject)
    (s : History) : Prop where
  alive : Alive s
  world : World s.self
  rank : s.self.initialized = true → s.self.rank = rank
  holds : ∀ o ∈ object, Holds s o
  left : quiet → NothingElse s object
  untouched : fresh → Untouched s

/-- The call is given the group object, and no other. -/
structure Given (held : Option GroupObject) (turn : Turn) : Prop where
  object : turn.object = held.map GroupObject.number
  group : turn.call.group = held.map GroupObject.group

/-- The ranks of the group object have the source of the call, and the rank itself. -/
def Fits (rank : Rank) (object : Option GroupObject) (call : Call) : Prop :=
  ∀ o ∈ object, ∀ src ∈ call.src, src ∈ o.group.ranks ∧ (rank : Int) ∈ o.group.ranks

section Calls

variable {newGroup : Library → List Int → Method (Option CommGroup)} {quiet fresh : Prop}
  {rank : Rank} {object : Option GroupObject} {s : History} {turn : Turn}

theorem Orderly.start : Orderly quiet fresh rank none .start where
  alive := .start
  world hinit := absurd hinit Bool.false_ne_true
  rank hinit := absurd hinit Bool.false_ne_true
  holds _ h := by cases h
  left _ _ _ h := by cases h
  untouched _ hinit := absurd hinit Bool.false_ne_true

theorem Orderly.forget (h : Orderly quiet fresh rank object s) :
    Orderly quiet False rank object s :=
  ⟨h.alive, h.world, h.rank, h.holds, h.left, False.elim⟩

theorem Holds.group_eq {o : GroupObject} (h : Holds s o) : s.group o.number = some o.group :=
  History.group_eq_some.mpr ⟨_, h.stands.resource⟩

/-- The library is asked for what the environment promises. -/
theorem Orderly.admits (h : Orderly quiet fresh rank object s) (hgiven : Given object turn)
    (hworld : s.ledger.Fresh turn.library.worldComm)
    (hnew : ∀ handle ∈ turn.library.newComm, s.ledger.Fresh handle ∧ handle ≠ 0) :
    s.Admits turn where
  object := by
    rw [hgiven.object, hgiven.group]
    cases object with
    | none => rfl
    | some o =>
        rw [Option.map_some, Option.map_some, Option.map_some, Option.map_some,
          (h.holds o rfl).group_eq]
  worldComm := hworld
  newComm := hnew

/-- The handle of the world that is up is not that of the group. -/
theorem Orderly.not_switchedTo (h : Orderly quiet fresh rank object s) {o : GroupObject}
    (ho : Holds s o) : ¬ s.SwitchedTo o.group := by
  intro ⟨c, hc, hcomm⟩
  obtain ⟨c', hc', hworld, _⟩ := h.world ho.initialized
  obtain ⟨handle, i, hhandle, hstands⟩ := h.alive.world ho.initialized
  obtain rfl : c = c' := Option.some.inj (hc.symm.trans hc')
  obtain rfl : handle = o.group.handle :=
    Option.some.inj (hhandle.symm.trans (hworld.symm.trans hcomm))
  cases (hstands.unique ho.stands).2

/-- A call with the group object in use, or with none, is allowed. -/
theorem Orderly.allowed (h : Orderly quiet fresh rank object s) (hgiven : Given object turn)
    (hfits : Fits rank object turn.call) : Allowed s turn := by
  have hof : ∀ group ∈ turn.call.group, ∃ o, object = some o ∧ o.group = group := by
    intro group hgroup
    have hmap : object.map GroupObject.group = some group := hgiven.group.symm.trans hgroup
    exact Option.map_eq_some_iff.mp hmap
  refine ⟨⟨fun _ _ i hi => ?_, fun _ _ group hgroup => ?_, fun _ _ group hgroup => ?_⟩, ?_⟩
  · have hmap : object.map GroupObject.number = some i := hgiven.object.symm.trans hi
    obtain ⟨o, ho, rfl⟩ := Option.map_eq_some_iff.mp hmap
    exact (h.holds o ho).stands.destroyed
  · obtain ⟨o, ho, rfl⟩ := hof group hgroup
    exact h.not_switchedTo (h.holds o ho)
  · obtain ⟨o, ho, rfl⟩ := hof group hgroup
    intro ⟨_, i, hi, r, hr, hnumber⟩
    have hstands := (h.holds o ho).stands
    obtain rfl := Option.some.inj (hstands.holder.symm.trans hi)
    obtain rfl := Option.some.inj (hstands.resource.symm.trans hr)
    exact hnumber rfl
  · -- a broadcast in the group comes from one of its ranks, on one of its ranks
    change ¬ LeavesGroup s.self turn.call
    cases hcall : turn.call with
    | broadcast src group =>
        cases src with
        | none => exact id
        | some src =>
            cases group with
            | none => exact id
            | some group =>
                intro ⟨hinit, _, _, hranks⟩
                obtain ⟨o, ho, hgroup⟩ := hof group (by rw [hcall, Call.group]; rfl)
                obtain ⟨hsrc, hrank⟩ := hfits o ho src (by rw [hcall, Call.src]; rfl)
                rw [hgroup] at hsrc hrank
                rw [← h.rank hinit] at hrank
                exact hranks.elim (fun hnot => hnot hsrc) fun hnot => hnot hrank
    | initProcessGroup | newGroup | destroyProcessGroup | allReduce | barrier
    | allGatherObject => exact id

/-! ## One call -/

/-- What every allowed call keeps. -/
theorem Orderly.alive_next (hnew : MakesGroups newGroup)
    (h : Orderly quiet fresh rank object s) (hadmits : s.Admits turn) (hallowed : Allowed s turn) :
    Alive (History.next newGroup s turn) ∧ World (History.next newGroup s turn).self := by
  refine ⟨(h.alive.next hnew.creates hadmits hallowed.1).1, ?_⟩
  rw [History.next_self]
  exact (perform_keeps_iff hnew.keeps h.world).mpr hallowed.2

theorem Orderly.place (h : Orderly quiet fresh rank object s) (hinit : s.self.initialized = true) :
    ∃ c, s.self.communicator = some c := by
  obtain ⟨c, hc, _⟩ := h.world hinit
  exact ⟨c, hc⟩

/-- A collective leaves everything as it was. -/
theorem Orderly.collective (hnew : MakesGroups newGroup)
    (h : Orderly quiet fresh rank object s) (hadmits : s.Admits turn) (hallowed : Allowed s turn)
    (hcall : turn.call.Collective) :
    Orderly quiet fresh rank object (History.next newGroup s turn) := by
  obtain ⟨halive, hworld⟩ := h.alive_next hnew hadmits hallowed
  rw [next_collective hcall] at halive hworld ⊢
  obtain ⟨hinit, hrank, hcomm, hid⟩ :=
    @perform_collective_frame newGroup turn.library _ _ hcall h.place
  refine ⟨halive, hworld, fun hinit' => ?_, fun o ho => ?_, fun hquiet i r hr hlive => ?_,
    fun hfresh hinit' c hc => ?_⟩
  · exact hrank.trans (h.rank (hinit.symm.trans hinit'))
  · have hholds := h.holds o ho
    exact ⟨hinit.trans hholds.initialized, hholds.stands⟩
  · exact (h.left hquiet hr hlive).imp_right fun hof =>
      ⟨hinit.trans hof.1, hcomm.trans hof.2⟩
  · have hsame := congrArg (Option.map Communicator.subcommId) hc
    obtain ⟨c', hc', hid'⟩ := Option.map_eq_some_iff.mp (hid.symm.trans hsame)
    exact hid'.symm.trans (h.untouched hfresh (hinit.symm.trans hinit') c' hc')

/-- A world is only initialised where none is up, so it is all that is left. -/
theorem Orderly.init (hnew : MakesGroups newGroup)
    (h : Orderly quiet fresh rank none s) (hadmits : s.Admits turn) (hallowed : Allowed s turn)
    {worldSize : Int} (hcall : turn.call = .initProcessGroup rank worldSize) :
    Orderly quiet fresh rank none (History.next newGroup s turn) := by
  obtain ⟨halive, hworld⟩ := h.alive_next hnew hadmits hallowed
  have hends := @initProcessGroup_ends turn.library rank worldSize s.self
  have hgiven := keeps_iff.mp (@initProcessGroup_given turn.library rank worldSize s.self)
  have hnext : History.next newGroup s turn =
      s.initialise (after (Distributed.initProcessGroup turn.library rank worldSize) s.self)
        turn.library.worldComm := by
    rw [History.next, hcall]
    rfl
  rw [hnext] at halive hworld ⊢
  generalize after (Distributed.initProcessGroup turn.library rank worldSize) s.self = self
    at hends hgiven halive hworld ⊢
  have hself : (s.initialise self turn.library.worldComm).self = self := by
    rw [History.initialise]
    split <;> rfl
  refine ⟨halive, hworld, fun hinit => ?_, fun _ ho => (by cases ho),
    fun hquiet i r hr hlive => ?_, fun hfresh => ?_⟩
  · rw [hself] at hinit ⊢
    cases hgiven with
    | inl hsame =>
        rw [hsame] at hinit ⊢
        exact h.rank hinit
    | inr hgiven => exact hgiven.1
  · cases hends with
    | already hinit =>
        rw [History.initialise, if_neg fun hnot => by rw [hinit] at hnot; cases hnot.1]
          at hr hlive ⊢
        exact h.left hquiet hr hlive
    | failed hnot hinit =>
        rw [History.initialise, if_neg fun hnew => by rw [hinit] at hnew; cases hnew.2]
          at hr hlive
        cases h.left hquiet hr hlive with
        | inl hobject => cases hobject
        | inr hof => exact absurd (hnot.symm.trans hof.1) Bool.false_ne_true
    | initialised hnot hinit hc hcomm hworld =>
        rw [History.initialise, if_pos ⟨hnot, hinit⟩] at hr hlive ⊢
        cases Ledger.resource_create_iff.mp hr with
        | inl hold =>
            cases h.left hquiet hold hlive with
            | inl hobject => cases hobject
            | inr hof => exact absurd (hnot.symm.trans hof.1) Bool.false_ne_true
        | inr hnew =>
            rw [hnew.2]
            exact Or.inr ⟨hinit, hworld⟩
  · rw [Untouched, hself]
    cases hgiven with
    | inl hsame =>
        rw [hsame]
        exact h.untouched hfresh
    | inr hgiven => exact hgiven.2

/-- The object that `new_group` returns where it is called. -/
def objectOf (newGroup : Library → List Int → Method (Option CommGroup)) (library : Library)
    (ranks : List Int) (s : History) : Option GroupObject :=
  (History.returned (newGroup library ranks) s.self).map fun group =>
    ⟨s.ledger.resources.length, group⟩

theorem objectOf_ranks (hnew : MakesGroups newGroup) {library : Library} {ranks : List Int}
    {o : GroupObject} (ho : objectOf newGroup library ranks s = some o) :
    o.group.ranks = groupRanks s.self.worldSize ranks := by
  obtain ⟨group, hgroup, rfl⟩ := Option.map_eq_some_iff.mp ho
  have hwp := hnew.ofRanks library ranks s.self
  rw [History.returned] at hgroup
  rw [wp] at hwp
  cases hrun : newGroup library ranks s.self with
  | ok group' t =>
      rw [hrun] at hwp hgroup
      exact hwp.2 group hgroup
  | error e t =>
      rw [hrun] at hgroup
      cases hgroup

/-- A new group is in use from then on. -/
theorem Orderly.makeGroup (hnew : MakesGroups newGroup)
    (h : Orderly quiet fresh rank none s) (hadmits : s.Admits turn)
    (hallowed : Allowed s turn) {ranks : List Int} (hcall : turn.call = .newGroup ranks) :
    Orderly quiet False rank (objectOf newGroup turn.library ranks s)
      (History.next newGroup s turn) := by
  obtain ⟨halive, hworld⟩ := h.alive_next hnew hadmits hallowed
  have hends := hnew.creates.ends turn.library ranks s.self
  have hkept : Keeps (newGroup turn.library ranks) (fun t => t.rank = s.self.rank) s.self :=
    wp_mono (hnew.ofRanks turn.library ranks s.self) (fun _ _ h => h.1) fun _ _ h => h
  have hrank : (after (newGroup turn.library ranks) s.self).rank = s.self.rank :=
    keeps_iff.mp hkept
  have hnext : History.next newGroup s turn =
      s.enter (after (newGroup turn.library ranks) s.self)
        (History.returned (newGroup turn.library ranks) s.self) := by
    rw [History.next, hcall, Distributed.perform, after_discard]
  rw [objectOf]
  rw [hnext] at halive hworld ⊢
  generalize after (newGroup turn.library ranks) s.self = self at hends hrank halive hworld ⊢
  generalize History.returned (newGroup turn.library ranks) s.self = group
    at hends halive hworld ⊢
  cases hends with
  | nothing hinit hcomm =>
      refine ⟨halive, hworld, fun hinit' => ?_, fun _ ho => (by cases ho),
        fun hquiet i r hr hlive => ?_, False.elim⟩
      · exact hrank.trans (h.rank (hinit.symm.trans hinit'))
      · exact (h.left hquiet hr hlive).imp_right fun hof =>
          ⟨hinit.trans hof.1, hcomm.trans hof.2⟩
  | @made _ group hup _ hinit hcomm =>
      refine ⟨halive, hworld, fun hinit' => ?_, fun o ho => ?_, fun hquiet i r hr hlive => ?_,
        False.elim⟩
      · exact hrank.trans (h.rank (hinit.symm.trans hinit'))
      · obtain rfl : _ = o := Option.some.inj ho
        exact ⟨hinit.trans hup, h.alive.sound.stands_create_self⟩
      · cases Ledger.resource_create_iff.mp hr with
        | inl hold =>
            refine (h.left hquiet hold hlive).imp (fun hobject => (by cases hobject)) fun hof => ?_
            exact ⟨hinit.trans hof.1, hcomm.trans hof.2⟩
        | inr hnew => exact Or.inl (congrArg some hnew.1.symm)

/-- The group is destroyed, unless the library raises. -/
theorem Orderly.destroyGroup (hnew : MakesGroups newGroup)
    {o : GroupObject} (h : Orderly quiet fresh rank (some o) s) (hadmits : s.Admits turn)
    (hallowed : Allowed s turn) (hcall : turn.call = .destroyProcessGroup (some o.group))
    (hquiet : quiet → turn.library.raises .destroyComm = none) :
    Orderly quiet fresh rank none (History.next newGroup s turn) := by
  obtain ⟨halive, hworld⟩ := h.alive_next hnew hadmits hallowed
  have hholds := h.holds o rfl
  obtain ⟨c, hc⟩ := h.place hholds.initialized
  have hnext : History.next newGroup s turn =
      s.discard (after (destroyProcessGroup turn.library (some o.group)) s.self)
        (destroyedHandle turn.library (some o.group) s.self) := by
    rw [History.next, hcall]
    rfl
  rw [hnext] at halive hworld ⊢
  cases hraises : turn.library.raises .destroyComm with
  | some e =>
      obtain ⟨hhandle, hself⟩ :=
        @destroyProcessGroup_raises turn.library s.self (some o.group) e hraises
      rw [hhandle, hself]
      refine ⟨h.alive, h.world, h.rank, fun _ ho => (by cases ho), fun hq => ?_, h.untouched⟩
      rw [hquiet hq] at hraises
      cases hraises
  | none =>
      obtain ⟨hhandle, hrun⟩ := destroyProcessGroup_group hholds.initialized hc
        (h.alive.notNull hholds.group_eq)
        (h.alive.known hholds.group_eq hholds.stands.destroyed) hraises
      rw [hhandle, after, hrun] at halive hworld ⊢
      refine ⟨halive, hworld, h.rank, fun _ ho => (by cases ho), fun hq i r hr hlive => ?_,
        h.untouched⟩
      rw [History.resources_discard] at hr
      obtain ⟨hne, hlive⟩ := Ledger.live_of_destroy hholds.stands hlive
      refine (h.left hq hr hlive).imp (fun hobject => ?_) id
      exact absurd (Option.some.inj hobject).symm hne

/-- The world is destroyed, unless the library raises. -/
theorem Orderly.destroyWorld (hnew : MakesGroups newGroup)
    (h : Orderly quiet fresh rank none s) (hadmits : s.Admits turn) (hallowed : Allowed s turn)
    (hcall : turn.call = .destroyProcessGroup none)
    (hquiet : quiet → turn.library.raises .destroyComm = none) :
    Orderly quiet fresh rank none (History.next newGroup s turn) ∧
      (quiet → (History.next newGroup s turn).self.initialized = false) := by
  obtain ⟨halive, hworld⟩ := h.alive_next hnew hadmits hallowed
  have hnext : History.next newGroup s turn =
      s.discard (after (destroyProcessGroup turn.library none) s.self)
        (destroyedHandle turn.library none s.self) := by
    rw [History.next, hcall]
    rfl
  rw [hnext] at halive hworld ⊢
  by_cases hinit : s.self.initialized = true
  · obtain ⟨c, hc, hcomm, _⟩ := h.world hinit
    obtain ⟨handle, i, hhandle, hstands⟩ := h.alive.world hinit
    cases hraises : turn.library.raises .destroyComm with
    | some e =>
        obtain ⟨hhandle, hself⟩ := @destroyProcessGroup_raises turn.library s.self none e hraises
        rw [hhandle, hself]
        refine ⟨h, fun hq => ?_⟩
        rw [hquiet hq] at hraises
        cases hraises
    | none =>
        obtain ⟨hdestroyed, hrun⟩ := destroyProcessGroup_world hinit hc hraises
        rw [hdestroyed, after, hrun, hcomm, hhandle] at halive hworld ⊢
        refine ⟨⟨halive, hworld, fun hnot => absurd hnot Bool.false_ne_true,
          fun _ ho => (by cases ho), fun hq j r hr hlive => ?_,
          fun _ hnot => absurd hnot Bool.false_ne_true⟩, fun _ => rfl⟩
        rw [History.resources_discard] at hr
        obtain ⟨hne, hleft⟩ := Ledger.live_of_destroy hstands hlive
        cases h.left hq hr hleft with
        | inl hobject => cases hobject
        | inr hof =>
            obtain rfl := Option.some.inj (hhandle.symm.trans hof.2)
            exact absurd ((h.alive.sound.stands_of_live hr hleft).unique hstands).1 hne
  · obtain ⟨hhandle, hself⟩ := @destroy_uninitialised turn.library s.self none hinit
    rw [hhandle, hself]
    exact ⟨h, fun _ => (Bool.not_eq_true _).mp hinit⟩

end Calls

end CheckpointEngine.Server
