/-
  `Distributed.World`: when a backend has its world communicator back.

  `_use_group` switches the communicator before it checks its arguments, and its
  `finally` covers what follows its `yield` only.
-/
import CheckpointEngine.Distributed.Backend

set_option autoImplicit false

namespace CheckpointEngine.Distributed

open CheckpointEngine.Foundation
open CheckpointEngine.Foundation.Command

/-- Of an initialised backend: its communicator is the world communicator, with the world
rank. -/
def World (self : Instance) : Prop :=
  self.initialized = true →
    ∃ c, self.communicator = some c ∧ c.comm = self.comm ∧ c.rank = self.rank

/-- The call is a broadcast in a group of its own that passes the check of the handle and
fails a later one: the source rank or the own rank is not among the group's ranks. -/
def LeavesGroup (self : Instance) : Call → Prop
  | .broadcast (some src) (some group) =>
      self.initialized = true ∧ group.handle ∈ self.subGroups.map Prod.fst ∧
        some group.handle ≠ self.comm ∧ (src ∉ group.ranks ∨ self.rank ∉ group.ranks)
  | _ => False

instance (self : Instance) : Decidable (World self) :=
  match hc : self.communicator with
  | none => decidable_of_iff (¬ self.initialized = true) (by simp [World, hc])
  | some c =>
      decidable_of_iff (self.initialized = true → c.comm = self.comm ∧ c.rank = self.rank)
        (by simp [World, hc])

instance (self : Instance) : (call : Call) → Decidable (LeavesGroup self call)
  | .broadcast (some src) (some group) =>
      inferInstanceAs (Decidable (self.initialized = true ∧
        group.handle ∈ self.subGroups.map Prod.fst ∧ some group.handle ≠ self.comm ∧
          (src ∉ group.ranks ∨ self.rank ∉ group.ranks)))
  | .broadcast (some _) none | .broadcast none _ | .initProcessGroup .. | .newGroup _
  | .destroyProcessGroup _ | .allReduce _ | .barrier _ | .allGatherObject _ => .isFalse id

/-- The call is not such a broadcast. -/
def FitsGroup (self : Instance) (agent : Library × Call) : Prop := ¬ LeavesGroup self agent.2

instance (self : Instance) (agent : Library × Call) : Decidable (FitsGroup self agent) :=
  inferInstanceAs (Decidable (¬ LeavesGroup self agent.2))

/-- `t` is `s`, up to the collectives called. -/
def OnlyIssues (s t : Instance) : Prop := t = { s with issued := t.issued }

theorem OnlyIssues.refl (s : Instance) : OnlyIssues s s := rfl

/-! ## The bodies of the collectives -/

/-- The group that a call names. -/
def Call.group : Call → Option CommGroup
  | .initProcessGroup .. | .newGroup _ => none
  | .destroyProcessGroup group | .allReduce group | .broadcast _ group | .barrier group
  | .allGatherObject group => group

/-- The rank that a call takes data from. -/
def Call.src : Call → Option Int
  | .broadcast src _ => src
  | .initProcessGroup .. | .newGroup _ | .destroyProcessGroup _ | .allReduce _ | .barrier _
  | .allGatherObject _ => none

/-- The call runs collectives. -/
def Call.Collective : Call → Prop
  | .initProcessGroup .. | .newGroup _ | .destroyProcessGroup _ => False
  | .allReduce _ | .broadcast .. | .barrier _ | .allGatherObject _ => True

/-- Every collective that is called on the communicator in place keeps `I`. -/
def IssueClosed (I : Instance → Prop) : Prop :=
  ∀ t c operation, I t → t.communicator = some c →
    I { t with issued := t.issued ++ [(operation, c.comm, c.rank)] }

theorem OnlyIssues.closed (s : Instance) : IssueClosed (OnlyIssues s) := by
  intro t c operation h _
  rw [OnlyIssues] at h ⊢
  rw [h]

section Bodies

variable {newGroup : Library → List Int → Method (Option CommGroup)} {library : Library}
  {I : Instance → Prop} {t : Instance}

theorem issue_keeps {site : Site} {operation : Operation} (hI : IssueClosed I) (h : I t) :
    Keeps (issue library site operation) I t := by
  simp only [issue, communicator, Keeps, wp_bind, wp_get]
  split
  · rename_i c hc
    simp only [wp_pure, wp_modify, wp_attempt]
    exact ⟨fun _ => hI t c operation h hc, fun _ _ => hI t c operation h hc⟩
  · exact h

theorem commonAllGatherObject_keeps (hI : IssueClosed I) (h : I t) :
    Keeps (commonAllGatherObject library) I t := by
  apply keeps_bind (keeps_attempt h)
  intro _ _ h
  apply keeps_bind (issue_keeps hI h)
  intro _ _ h
  apply keeps_bind (keeps_attempt h)
  intro _ _ h
  apply keeps_bind (issue_keeps hI h)
  intro _ _ h
  apply keeps_bind (keeps_get h)
  intro _ _ h
  exact keeps_forM (fun _ _ => keeps_attempt) h

/-- All collectives are called in one way, with a body that does nothing else. -/
theorem Call.Collective.exists_body {call : Call} (hcall : call.Collective) :
    ∃ body : Option Int → Method Unit,
      perform newGroup library call =
          (do requireInitialized; useGroup call.group call.src body) ∧
        ∀ I, IssueClosed I → ∀ a t, I t → Keeps (body a) I t := by
  cases call with
  | initProcessGroup => exact hcall.elim
  | newGroup => exact hcall.elim
  | destroyProcessGroup => exact hcall.elim
  | allReduce group =>
      refine ⟨_, rfl, fun I hI _ t h => keeps_bind (issue_keeps hI h) ?_⟩
      intro _ _ h
      exact keeps_bind (keeps_attempt h) fun _ _ => keeps_attempt
  | broadcast src group =>
      exact ⟨_, rfl, fun I hI _ t h =>
        keeps_bind (issue_keeps hI h) fun _ _ => keeps_attempt⟩
  | barrier group =>
      refine ⟨_, rfl, fun I hI _ t h => keeps_bind (keeps_attempt h) ?_⟩
      intro _ _ h
      exact keeps_bind (issue_keeps hI h) fun _ _ => keeps_attempt
  | allGatherObject group =>
      exact ⟨_, rfl, fun I hI _ t h =>
        keeps_bind (commonAllGatherObject_keeps hI h) fun _ _ => keeps_attempt⟩

end Bodies

/-! ## `_use_group` -/

section UseGroup

variable {s : Instance} {c : Communicator} {group : CommGroup} {src : Option Int}
  {body : Option Int → Method Unit}

/-- Without a group nothing is switched. -/
theorem useGroup_none (hbody : ∀ a, Keeps (body a) (OnlyIssues s) s) :
    Keeps (useGroup none src body) (OnlyIssues s) s := by
  simp only [useGroup, enterGroup, leaveGroup, Keeps, wp_bind, wp_pure, wp_tryFinally, wp_get]
  apply wp_mono (hbody src)
  · exact fun _ _ h => h
  · exact fun _ _ h => h

/-- `_use_group` has set these on the communicator by its `yield`. -/
def entered (group : CommGroup) (src : Option Int) (c : Communicator) (rank : Int) :
    Communicator :=
  { c with
    comm := some group.handle
    rank := if src.isSome then (group.ranks.idxOf rank : Nat) else c.rank }

theorem wp_enterGroup {Q : Option Int → Instance → Prop} {E : BackendError → Instance → Prop}
    (hc : s.communicator = some c) (hhandle : group.handle ∈ s.subGroups.map Prod.fst)
    (hsrc : ∀ r, src = some r → r ∈ group.ranks ∧ s.rank ∈ group.ranks)
    (h : ∀ a, Q a { s with communicator := some (entered group src c s.rank) }) :
    wp (enterGroup (some group) src) Q E s := by
  simp only [enterGroup, setComm, communicator, wp_bind, wp_get, wp_require_of hhandle, hc]
  cases src with
  | none => exact h none
  | some r =>
      obtain ⟨hr, hown⟩ := hsrc r rfl
      simp only [wp_pure, wp_modify, wp_bind, index, setRank, communicator, wp_get,
        wp_require_of hr, wp_require_of hown]
      exact h (some (group.ranks.idxOf r : Nat))

/-- What was set is set back. -/
theorem leaveGroup_restores {l : List (Operation × Option Int × Int)}
    (hc : s.communicator = some c) (hcomm : c.comm = s.comm) (hrank : c.rank = s.rank) :
    Keeps (leaveGroup (some group) src) (OnlyIssues s)
      { s with communicator := some (entered group src c s.rank), issued := l } := by
  obtain ⟨comm, rank, subcommId⟩ := c
  subst hcomm hrank
  cases src with
  | none => simp [leaveGroup, setComm, communicator, entered, Keeps, OnlyIssues, ← hc]
  | some src =>
      simp [leaveGroup, setComm, setRank, communicator, entered, Keeps, OnlyIssues, ← hc]

/-- A group whose handle is unknown is refused before anything is switched. -/
theorem useGroup_unknown (h : group.handle ∉ s.subGroups.map Prod.fst) :
    Keeps (useGroup (some group) src body) (OnlyIssues s) s := by
  simp only [useGroup, enterGroup, Keeps, wp_bind, wp_get, wp_require]
  exact ⟨fun hmem => absurd hmem h, fun _ => rfl⟩

/-- A group that passes the checks is switched to and left again, however the body ends. -/
theorem useGroup_restores (hc : s.communicator = some c) (hcomm : c.comm = s.comm)
    (hrank : c.rank = s.rank)
    (hsrc : ∀ r, src = some r → group.handle ∈ s.subGroups.map Prod.fst →
      r ∈ group.ranks ∧ s.rank ∈ group.ranks)
    (hbody : ∀ a t, Keeps (body a) (OnlyIssues t) t) :
    Keeps (useGroup (some group) src body) (OnlyIssues s) s := by
  by_cases hhandle : group.handle ∈ s.subGroups.map Prod.fst
  · have hleave : ∀ a,
        Keeps (tryFinally (body a) (leaveGroup (some group) src)) (OnlyIssues s)
          { s with communicator := some (entered group src c s.rank) } := by
      intro a
      rw [Keeps, wp_tryFinally]
      apply wp_mono (hbody a _)
      · intro _ t ht
        rw [OnlyIssues] at ht
        rw [ht]
        exact leaveGroup_restores hc hcomm hrank
      · intro _ t ht
        rw [OnlyIssues] at ht
        rw [ht]
        exact leaveGroup_restores hc hcomm hrank
    rw [Keeps, useGroup, wp_bind]
    exact wp_enterGroup hc hhandle (fun r hr => hsrc r hr hhandle) hleave
  · exact useGroup_unknown hhandle

/-- A group with a known handle that fails a check of its ranks stays switched to. -/
theorem useGroup_leaves {r : Int} (hc : s.communicator = some c)
    (hhandle : group.handle ∈ s.subGroups.map Prod.fst)
    (h : r ∉ group.ranks ∨ s.rank ∉ group.ranks) :
    Keeps (useGroup (some group) (some r) body)
      (· = { s with communicator := some { c with comm := some group.handle } }) s := by
  simp only [Keeps, useGroup, enterGroup, setComm, communicator, wp_bind, wp_get,
    wp_require_of hhandle, hc, wp_pure, wp_modify]
  by_cases hr : r ∈ group.ranks
  · have hown : s.rank ∉ group.ranks := h.resolve_left fun hnot => hnot hr
    simp only [wp_require_of hr, index, wp_bind, wp_pure, wp_require_of_not hown]
  · simp only [wp_require_of_not hr]

end UseGroup

/-! ## The calls -/

section Calls

variable {library : Library} {s : Instance} {group : Option CommGroup} {src : Option Int}

theorem World.of_onlyIssues {t : Instance} (h : World s) (ht : OnlyIssues s t) : World t := by
  rw [ht]
  exact h

/-- An initialised backend goes on to the body of a call. -/
theorem wp_requireInitialized {Q : Unit → Instance → Prop} {E : BackendError → Instance → Prop} :
    wp requireInitialized Q E s ↔ (s.initialized = true → Q () s) ∧
      (¬s.initialized = true → E (.assertionError "not initialized") s) := by
  simp only [requireInitialized, wp_bind, wp_get, wp_require]

/-- A collective in a group it may use leaves the world communicator. -/
theorem collective_keeps {newGroup : Library → List Int → Method (Option CommGroup)}
    {call : Call} (hcall : call.Collective) (hworld : World s)
    (hsrc : ∀ g r, call.group = some g → call.src = some r → s.initialized = true →
      g.handle ∈ s.subGroups.map Prod.fst → r ∈ g.ranks ∧ s.rank ∈ g.ranks) :
    Keeps (perform newGroup library call) World s := by
  obtain ⟨body, hcall, hbody⟩ := @Call.Collective.exists_body newGroup library _ hcall
  have hbody : ∀ a t, Keeps (body a) (OnlyIssues t) t :=
    fun a t => hbody _ (OnlyIssues.closed t) a t (.refl t)
  rw [hcall, Keeps, wp_bind, wp_requireInitialized]
  refine ⟨fun hinit => ?_, fun _ => hworld⟩
  obtain ⟨c, hc, hcomm, hrank⟩ := hworld hinit
  have hkeeps : Keeps (useGroup call.group call.src body) (OnlyIssues s) s := by
    cases hgroup : call.group with
    | none => exact useGroup_none fun a => hbody a s
    | some g =>
        exact useGroup_restores hc hcomm hrank (fun r hr => hsrc g r hgroup hr hinit) hbody
  apply wp_mono hkeeps
  · exact fun _ _ => hworld.of_onlyIssues
  · exact fun _ _ => hworld.of_onlyIssues

/-- A broadcast whose ranks do not fit its group ends with the group's communicator. -/
theorem broadcast_leaves {g : CommGroup} {r : Int} {c : Communicator}
    (hinit : s.initialized = true) (hc : s.communicator = some c)
    (hhandle : g.handle ∈ s.subGroups.map Prod.fst) (h : r ∉ g.ranks ∨ s.rank ∉ g.ranks) :
    after (broadcast library (some r) (some g)) s =
      { s with communicator := some { c with comm := some g.handle } } := by
  have hkeeps : Keeps (broadcast library (some r) (some g))
      (· = { s with communicator := some { c with comm := some g.handle } }) s := by
    rw [broadcast, Keeps, wp_bind, wp_requireInitialized]
    exact ⟨fun _ => useGroup_leaves hc hhandle h, fun hnot => absurd hinit hnot⟩
  exact keeps_iff.mp hkeeps

theorem initProcessGroup_keeps {rank worldSize : Int} (h : World s) :
    Keeps (initProcessGroup library rank worldSize) World s := by
  simp only [initProcessGroup, communicator, Keeps, wp_bind, wp_get, wp_require, wp_modify,
    wp_attempt, wp_pure]
  refine ⟨fun hnot => ?_, fun _ => h⟩
  -- until the last assignment the backend is not initialised
  have hnotyet : ∀ t : Instance, t.initialized = s.initialized → World t := by
    intro t ht hinit
    rw [ht, hnot] at hinit
    cases hinit
  refine ⟨fun _ => ⟨fun _ => ⟨fun _ => ⟨fun _ => ?_, ?_⟩, ?_⟩, ?_⟩, ?_⟩
  · exact fun _ => ⟨_, rfl, rfl, rfl⟩
  all_goals exact fun _ _ => hnotyet _ rfl

theorem destroyProcessGroup_keeps (h : World s) :
    Keeps (destroyProcessGroup library group) World s := by
  rw [destroyProcessGroup, Keeps, wp_bind, wp_requireInitialized]
  refine ⟨fun hinit => ?_, fun _ => h⟩
  obtain ⟨c, hc, hworld⟩ := h hinit
  rw [wp_bind, wp_get]
  split
  · simp only [communicator, wp_bind, wp_get, hc, wp_pure, wp_attempt, wp_modify]
    exact ⟨fun _ _ => ⟨c, rfl, hworld⟩, fun _ _ => h⟩
  · simp only [communicator, wp_bind, wp_get, hc, wp_pure, wp_attempt, wp_modify]
    exact ⟨fun _ hnot => (by cases hnot), fun _ _ => h⟩

theorem enterSubGroup_keeps {newcomm : Option Int} {ranks : List Int} (h : World s) :
    Keeps (enterSubGroup newcomm ranks) World s := by
  cases newcomm with
  | none => exact h
  | some handle => exact h

theorem communicator_keeps (h : World s) : Keeps communicator World s := by
  simp only [communicator, Keeps, wp_bind, wp_get]
  split <;> exact h

theorem requireInitialized_keeps (h : World s) : Keeps requireInitialized World s := by
  rw [Keeps, wp_requireInitialized]
  exact ⟨fun _ => h, fun _ => h⟩

theorem Nccl.newGroup_keeps {ranks : List Int} (h : World s) :
    Keeps (Nccl.newGroup library ranks) World s := by
  apply keeps_bind (requireInitialized_keeps h)
  intro _ _ h
  apply keeps_bind (keeps_get h)
  intro _ _ h
  apply keeps_bind (communicator_keeps h)
  intro _ _ h
  exact keeps_bind (keeps_attempt h) fun _ _ => enterSubGroup_keeps

theorem createSubcomm_keeps {ranks : List Int} (h : World s) :
    Keeps (createSubcomm library ranks) World s := by
  apply keeps_bind (communicator_keeps h)
  intro c t h
  simp only [index, Keeps, wp_bind, wp_require, wp_pure, wp_attempt, wp_modify]
  refine ⟨fun _ => ⟨fun _ hinit => ?_, fun _ _ => h⟩, fun _ => h⟩
  obtain ⟨c, hc, hworld⟩ := h hinit
  exact ⟨{ c with subcommId := c.subcommId + 1 }, by simp only [hc, Option.map_some], hworld⟩

theorem Hccl.newGroup_keeps {ranks : List Int} (h : World s) :
    Keeps (Hccl.newGroup library ranks) World s := by
  apply keeps_bind (requireInitialized_keeps h)
  intro _ _ h
  apply keeps_bind (keeps_get h)
  intro _ _ h
  apply keeps_bind (keeps_get h)
  intro self t h
  simp only [Keeps, wp_ite, wp_pure]
  refine ⟨fun _ => h, fun _ => ?_⟩
  exact keeps_bind (createSubcomm_keeps h) fun _ _ => enterSubGroup_keeps

end Calls

/-! ## Runs -/

/-- A `new_group` that leaves the world communicator as it is. -/
def NewGroupKeeps (newGroup : Library → List Int → Method (Option CommGroup)) : Prop :=
  ∀ library ranks s, World s → Keeps (newGroup library ranks) World s

section Runs

variable {newGroup : Library → List Int → Method (Option CommGroup)} {s : Instance}

theorem perform_broadcast_keeps_iff {library : Library} {src : Option Int}
    {group : Option CommGroup} (h : World s) :
    World (after (perform newGroup library (.broadcast src group)) s) ↔
      ¬ LeavesGroup s (.broadcast src group) := by
  by_cases hfits : ∀ g r, group = some g → src = some r → s.initialized = true →
      g.handle ∈ s.subGroups.map Prod.fst → r ∈ g.ranks ∧ s.rank ∈ g.ranks
  · refine iff_of_true (keeps_iff.mp (collective_keeps trivial h hfits)) ?_
    cases src with
    | none => exact id
    | some r =>
        cases group with
        | none => exact id
        | some g =>
            intro ⟨hinit, hhandle, _, hranks⟩
            obtain ⟨hr, hown⟩ := hfits g r rfl rfl hinit hhandle
            exact hranks.elim (fun hnot => hnot hr) fun hnot => hnot hown
  · -- the checks of the ranks fail after the communicator has been switched
    obtain ⟨g, r, rfl, rfl, hinit, hhandle, hranks⟩ :
        ∃ g r, group = some g ∧ src = some r ∧ s.initialized = true ∧
          g.handle ∈ s.subGroups.map Prod.fst ∧ ¬(r ∈ g.ranks ∧ s.rank ∈ g.ranks) := by
      simpa only [not_forall, exists_prop] using hfits
    have hranks : r ∉ g.ranks ∨ s.rank ∉ g.ranks := not_and_or.mp hranks
    obtain ⟨c, hc, _, hrank⟩ := h hinit
    rw [perform, broadcast_leaves hinit hc hhandle hranks]
    constructor
    · intro hworld ⟨_, _, hother, _⟩
      obtain ⟨c', hc', hcomm', _⟩ := hworld hinit
      obtain rfl := Option.some.inj hc'
      exact hother hcomm'
    · intro hleaves _
      refine ⟨_, rfl, ?_, hrank⟩
      by_contra hother
      exact hleaves ⟨hinit, hhandle, hother, hranks⟩

/-- From the world communicator, a call gets back to it unless it is a broadcast of the
one kind. -/
theorem perform_keeps_iff (hnew : NewGroupKeeps newGroup) {library : Library} {call : Call}
    (h : World s) : World (after (perform newGroup library call) s) ↔ ¬ LeavesGroup s call := by
  cases call with
  | initProcessGroup rank worldSize =>
      exact iff_of_true (keeps_iff.mp (initProcessGroup_keeps h)) id
  | newGroup ranks =>
      have hkeeps : Keeps (discard (newGroup library ranks)) World s :=
        wp_map.mpr (hnew library ranks s h)
      exact iff_of_true (keeps_iff.mp hkeeps) id
  | destroyProcessGroup group =>
      exact iff_of_true (keeps_iff.mp (destroyProcessGroup_keeps h)) id
  | broadcast src group => exact perform_broadcast_keeps_iff h
  | allReduce | barrier | allGatherObject =>
      refine iff_of_true (keeps_iff.mp (collective_keeps trivial h ?_)) id
      intro _ _ _ hsrc
      cases hsrc

/-- In every run without such broadcasts, the world communicator is there whenever no call is
in progress. -/
theorem world_of_run (hnew : NewGroupKeeps newGroup)
    (h : (machine newGroup).ReachableBy FitsGroup s) :
    World s := by
  apply Machine.ReachableBy.invariant (I := World) _ _ h
  · intro hinit
    cases hinit
  · intro s agent t hs hkept hstep
    obtain rfl := Option.some.inj hstep
    exact (perform_keeps_iff hnew hs).mpr hkept

end Runs

theorem Nccl.newGroupKeeps : NewGroupKeeps Nccl.newGroup := fun _ _ _ => Nccl.newGroup_keeps

theorem Hccl.newGroupKeeps : NewGroupKeeps Hccl.newGroup := fun _ _ _ => Hccl.newGroup_keeps

/-- Of both backends, in every run without broadcasts whose source rank or own rank is not in
their group: whenever no call is in progress and the backend is initialised, its
communicator is the world communicator, with the world rank. -/
theorem world_restored (s : Instance) :
    ((machine Nccl.newGroup).ReachableBy FitsGroup s → World s) ∧
      ((machine Hccl.newGroup).ReachableBy FitsGroup s → World s) :=
  ⟨world_of_run Nccl.newGroupKeeps, world_of_run Hccl.newGroupKeeps⟩

/-- A library that raises at the sites named. -/
def libraryRaising (sites : List Site) : Library where
  raises site := if site ∈ sites then some (.libraryError "") else none
  worldComm := 1
  newComm := some 7

/-- Rank 0 of two enters a group, broadcasts in it twice, the second time with a failing
library, and reduces in a group that does not exist. -/
def groupCalls : List (Library × Call) :=
  [(libraryRaising [], .initProcessGroup 0 2), (libraryRaising [], .newGroup [1, 0]),
    (libraryRaising [], .broadcast (some 1) (some ⟨7, [0, 1]⟩)),
    (libraryRaising [.broadcast], .broadcast (some 1) (some ⟨7, [0, 1]⟩)),
    (libraryRaising [], .allReduce (some ⟨8, [0]⟩))]

/-- The calls get back to the world communicator. -/
theorem world_restored_groupCalls :
    (∃ s, (machine Nccl.newGroup).ReachableBy FitsGroup s ∧ s.initialized = true ∧ World s) ∧
      (∃ s, (machine Hccl.newGroup).ReachableBy FitsGroup s ∧ s.initialized = true ∧ World s) := by
  obtain ⟨nccl, hnccl, hncclInit⟩ :=
    @Machine.ReachableBy.of_runBy _ _ (machine Nccl.newGroup) FitsGroup _
      (fun s => s.initialized = true ∧ s.issued.length = 2) _ groupCalls (by decide +kernel)
  obtain ⟨hccl, hhccl, hhcclInit⟩ :=
    @Machine.ReachableBy.of_runBy _ _ (machine Hccl.newGroup) FitsGroup _
      (fun s => s.initialized = true ∧ s.issued.length = 2) _ groupCalls (by decide +kernel)
  exact ⟨⟨nccl, hnccl, hncclInit.1, (world_restored nccl).1 hnccl⟩,
    ⟨hccl, hhccl, hhcclInit.1, (world_restored hccl).2 hhccl⟩⟩

/-- Rank 0 of two broadcasts from rank 5 in a group of both ranks. -/
theorem broadcastFromStranger_leaves_group :
    (∃ s, (machine Nccl.newGroup).Reachable s ∧ ¬ World s) ∧
      (∃ s, (machine Hccl.newGroup).Reachable s ∧ ¬ World s) := by
  constructor
  · exact Machine.Reachable.of_run
      [(libraryRaising [], .initProcessGroup 0 2), (libraryRaising [], .newGroup [1, 0]),
        (libraryRaising [], .broadcast (some 5) (some ⟨7, [0, 1]⟩))] (by decide +kernel)
  · exact Machine.Reachable.of_run
      [(libraryRaising [], .initProcessGroup 0 2), (libraryRaising [], .newGroup [1, 0]),
        (libraryRaising [], .broadcast (some 5) (some ⟨7, [0, 1]⟩))] (by decide +kernel)

end CheckpointEngine.Distributed
