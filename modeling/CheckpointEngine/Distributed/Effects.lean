/-
  `Distributed.Effects`: what each call of a backend does with communicators.

  One description for each kind of call: on which communicator the collectives run and
  which one is in place afterwards, which communicator is destroyed, and which is new.
-/
import CheckpointEngine.Distributed.World

set_option autoImplicit false

namespace CheckpointEngine.Distributed

open CheckpointEngine.Foundation
open CheckpointEngine.Foundation.Command

/-! ## Collectives -/

/-- `t` is `s`, but for collectives that ran on the communicator. -/
def IssuesOn (comm : Option Int) (s t : Instance) : Prop :=
  ∃ l, t = { s with issued := s.issued ++ l } ∧ ∀ entry ∈ l, entry.2.1 = comm

theorem IssuesOn.refl (comm : Option Int) (s : Instance) : IssuesOn comm s s :=
  ⟨[], by rw [List.append_nil], fun _ h => nomatch h⟩

/-- The communicator in place stays, and so does where the collectives run. -/
theorem IssuesOn.closed {s : Instance} {c : Communicator} (hc : s.communicator = some c) :
    IssueClosed (IssuesOn c.comm s) := by
  intro t c' operation h hc'
  obtain ⟨l, rfl, hl⟩ := h
  obtain rfl : c = c' := Option.some.inj (hc.symm.trans hc')
  refine ⟨l ++ [(operation, c.comm, c.rank)], by rw [List.append_assoc], fun entry hentry => ?_⟩
  cases List.mem_append.mp hentry with
  | inl hold => exact hl entry hold
  | inr hnew => rw [List.mem_singleton.mp hnew]

/-- How a collective ends that is called where `c` is in place. -/
inductive CollectiveEnds (s : Instance) (c : Communicator) : Option CommGroup → Instance → Prop
  | world {l : List (Operation × Option Int × Int)} (hl : ∀ entry ∈ l, entry.2.1 = c.comm) :
      CollectiveEnds s c none { s with issued := s.issued ++ l }
  | unknown {group : CommGroup} (h : group.handle ∉ s.subGroups.map Prod.fst) :
      CollectiveEnds s c (some group) s
  /-- The world communicator is back, or the group's has been left in place. -/
  | group {group : CommGroup} {l : List (Operation × Option Int × Int)} {comm : Option Int}
      {rank : Int} (h : group.handle ∈ s.subGroups.map Prod.fst)
      (hcomm : comm = s.comm ∨ comm = some group.handle)
      (hl : ∀ entry ∈ l, entry.2.1 = some group.handle) :
      CollectiveEnds s c (some group)
        { s with communicator := some { c with comm, rank }, issued := s.issued ++ l }

section UseGroup

variable {s : Instance} {c : Communicator} {group : CommGroup} {src : Option Int}
  {body : Option Int → Method Unit}

/-- From a group that was entered, the body runs on its communicator, and the world's is
put back. -/
theorem leaves_group {a : Option Int} {rank : Int}
    (hhandle : group.handle ∈ s.subGroups.map Prod.fst)
    (hbody : ∀ t c, t.communicator = some c → Keeps (body a) (IssuesOn c.comm t) t) :
    Keeps (tryFinally (body a) (leaveGroup (some group) src)) (CollectiveEnds s c (some group))
      { s with communicator := some { c with comm := some group.handle, rank } } := by
  have hleave : ∀ t, IssuesOn (some group.handle)
      { s with communicator := some { c with comm := some group.handle, rank } } t →
        Keeps (leaveGroup (some group) src) (CollectiveEnds s c (some group)) t := by
    intro t hissues
    obtain ⟨l, rfl, hl⟩ := hissues
    cases src with
    | none =>
        simp only [leaveGroup, setComm, communicator, Keeps, wp_bind, wp_get, wp_ite, wp_pure,
          wp_modify, Option.isSome_some, Option.isSome_none, Bool.false_eq_true, not_true_eq_false,
          false_implies, true_implies, true_and, and_true, not_false_eq_true]
        exact .group hhandle (Or.inl rfl) hl
    | some r =>
        simp only [leaveGroup, setComm, setRank, communicator, Keeps, wp_bind, wp_get, wp_ite,
          wp_pure, wp_modify, Option.isSome_some, not_true_eq_false, false_implies, true_implies,
          and_true]
        exact .group hhandle (Or.inl rfl) hl
  rw [Keeps, wp_tryFinally]
  apply wp_mono (hbody _ _ rfl)
  · exact fun _ t => hleave t
  · exact fun _ t => hleave t

theorem useGroup_ends {group : Option CommGroup} (hc : s.communicator = some c)
    (hbody : ∀ a t c, t.communicator = some c → Keeps (body a) (IssuesOn c.comm t) t) :
    Keeps (useGroup group src body) (CollectiveEnds s c group) s := by
  cases group with
  | none =>
      simp only [useGroup, enterGroup, leaveGroup, Keeps, wp_bind, wp_pure, wp_tryFinally, wp_get]
      have hworld : ∀ t, IssuesOn c.comm s t → CollectiveEnds s c none t := by
        intro t hissues
        obtain ⟨l, rfl, hl⟩ := hissues
        exact .world hl
      apply wp_mono (hbody src s c hc)
      · exact fun _ t => hworld t
      · exact fun _ t => hworld t
  | some group =>
      by_cases hhandle : group.handle ∈ s.subGroups.map Prod.fst
      · have hentered : CollectiveEnds s c (some group)
            { s with communicator := some { c with comm := some group.handle } } := by
          have hgroup := @CollectiveEnds.group s c group [] _ c.rank hhandle (Or.inr rfl)
            fun entry hentry => absurd hentry List.not_mem_nil
          rwa [List.append_nil] at hgroup
        simp only [useGroup, enterGroup, setComm, communicator, Keeps, wp_bind, wp_get,
          wp_require_of hhandle, hc, wp_pure, wp_modify]
        cases src with
        | none => exact leaves_group hhandle (hbody none)
        | some r =>
            simp only [index, setRank, communicator, wp_bind, wp_require, wp_pure, wp_get,
              wp_modify]
            -- a check of the ranks that fails leaves the group's communicator in place
            refine ⟨fun hr => ⟨fun _ => ⟨fun _ => ?_, fun _ => hentered⟩, fun _ => hentered⟩,
              fun _ => hentered⟩
            exact leaves_group hhandle (hbody _)
      · simp only [useGroup, enterGroup, Keeps, wp_bind, wp_get, wp_require]
        exact ⟨fun hmem => absurd hmem hhandle, fun _ => .unknown hhandle⟩

end UseGroup

section Collectives

variable {newGroup : Library → List Int → Method (Option CommGroup)} {library : Library}
  {s : Instance} {c : Communicator}

/-- Where a backend is initialised, a collective runs on the communicator of its group, or
on the one in place. -/
theorem perform_collective {call : Call} (hinit : s.initialized = true)
    (hc : s.communicator = some c) (hcall : call.Collective) :
    CollectiveEnds s c call.group (after (perform newGroup library call) s) := by
  obtain ⟨body, hcall, hbody⟩ := @Call.Collective.exists_body newGroup library _ hcall
  apply keeps_iff.mp
  rw [hcall, Keeps, wp_bind, wp_requireInitialized]
  refine ⟨fun _ => ?_, fun hnot => absurd hinit hnot⟩
  exact useGroup_ends hc fun a t c hc => hbody _ (IssuesOn.closed hc) a t (.refl _ t)

/-- Where it is not initialised, nothing happens. -/
theorem after_requireInitialized {α : Type} {body : Method α} (h : ¬ s.initialized = true) :
    after (do requireInitialized; body) s = s := by
  have hkeeps : Keeps (do requireInitialized; body) (· = s) s := by
    rw [Keeps, wp_bind, wp_requireInitialized]
    exact ⟨fun hinit => absurd hinit h, fun _ => rfl⟩
  exact keeps_iff.mp hkeeps

theorem perform_collective_uninitialised {call : Call} (h : ¬ s.initialized = true)
    (hcall : call.Collective) : after (perform newGroup library call) s = s := by
  obtain ⟨body, hcall, _⟩ := @Call.Collective.exists_body newGroup library _ hcall
  rw [hcall]
  exact after_requireInitialized h

/-- It keeps the rank, the world and the next id of a group, and the backend initialised or
not. -/
theorem perform_collective_frame {call : Call} (hcall : call.Collective)
    (hplace : s.initialized = true → ∃ c, s.communicator = some c) :
    (after (perform newGroup library call) s).initialized = s.initialized ∧
      (after (perform newGroup library call) s).rank = s.rank ∧
      (after (perform newGroup library call) s).comm = s.comm ∧
      (after (perform newGroup library call) s).communicator.map Communicator.subcommId =
        s.communicator.map Communicator.subcommId := by
  by_cases hinit : s.initialized = true
  · obtain ⟨c, hc⟩ := hplace hinit
    have hends := @perform_collective newGroup library _ _ _ hinit hc hcall
    generalize call.group = group at hends
    generalize after (perform newGroup library call) s = t at hends ⊢
    cases hends with
    | world | unknown => exact ⟨rfl, rfl, rfl, rfl⟩
    | group => exact ⟨rfl, rfl, rfl, by rw [hc]; rfl⟩
  · rw [perform_collective_uninitialised hinit hcall]
    exact ⟨rfl, rfl, rfl, rfl⟩

end Collectives

/-! ## `init_process_group` -/

/-- How `init_process_group` ends. -/
inductive InitEnds (library : Library) (s : Instance) : Instance → Prop
  | already (h : s.initialized = true) : InitEnds library s s
  | failed {t : Instance} (h : s.initialized = false) (hinit : t.initialized = false)
      (hgroups : t.subGroups = s.subGroups) (hissued : t.issued = s.issued) :
      InitEnds library s t
  | initialised {t : Instance} {c : Communicator} (h : s.initialized = false)
      (hinit : t.initialized = true) (hc : t.communicator = some c)
      (hcomm : c.comm = some library.worldComm) (hworld : t.comm = some library.worldComm)
      (hgroups : t.subGroups = s.subGroups) (hissued : t.issued = s.issued) :
      InitEnds library s t

theorem initProcessGroup_ends {library : Library} {rank worldSize : Int} (s : Instance) :
    InitEnds library s (after (initProcessGroup library rank worldSize) s) := by
  apply keeps_iff.mp
  simp only [initProcessGroup, communicator, Keeps, wp_bind, wp_get, wp_require, wp_modify,
    wp_attempt, wp_pure]
  refine ⟨fun hnot => ?_, fun hinit => ?_⟩
  · refine ⟨fun _ => ⟨fun _ => ⟨fun _ => ⟨fun _ => ?_, ?_⟩, ?_⟩, ?_⟩, ?_⟩
    · exact .initialised hnot rfl rfl rfl rfl rfl rfl
    all_goals exact fun _ _ => .failed hnot hnot rfl rfl
  · exact .already (by simpa using hinit)

/-- An initialised backend has the rank it was given last, and a new one has made no group. -/
theorem initProcessGroup_given {library : Library} {rank worldSize : Int} {s : Instance} :
    Keeps (initProcessGroup library rank worldSize)
      (fun t => t = s ∨ t.rank = rank ∧
        (t.initialized = true → ∀ c ∈ t.communicator, c.subcommId = 1)) s := by
  simp only [initProcessGroup, communicator, Keeps, wp_bind, wp_get, wp_require, wp_modify,
    wp_attempt, wp_pure, true_or, implies_true, and_true]
  refine fun hnot => ⟨fun _ => ⟨fun _ => ⟨fun _ => ⟨fun _ => ?_, ?_⟩, ?_⟩, ?_⟩, ?_⟩
  · refine Or.inr ⟨trivial, fun _ c hc => ?_⟩
    obtain rfl := Option.some.inj hc
    rfl
  all_goals exact fun _ _ => Or.inr ⟨trivial, fun hinit => absurd (hnot.symm.trans hinit)
    Bool.false_ne_true⟩

/-- The places where `init_process_group` leaves the modelled code. -/
def initSites : List Site :=
  [.currentDevice, .createStatelessProcessGroup, .communicator, .communicatorComm]

/-- A backend is initialised behind the call if it was before, or if nothing has raised. -/
theorem initProcessGroup_initialized_iff {library : Library} {rank worldSize : Int}
    {s : Instance} :
    (after (initProcessGroup library rank worldSize) s).initialized = true ↔
      s.initialized = true ∨ ∀ site ∈ initSites, library.raises site = none := by
  have hkeeps : Keeps (initProcessGroup library rank worldSize) (fun t => t.initialized = true ↔
      s.initialized = true ∨ ∀ site ∈ initSites, library.raises site = none) s := by
    simp only [initProcessGroup, communicator, Keeps, wp_bind, wp_get, wp_require, wp_modify,
      wp_attempt, wp_pure, initSites, List.forall_mem_cons, List.not_mem_nil, false_implies,
      implies_true, and_true]
    refine ⟨fun hnot => ?_, fun hinit => ?_⟩
    · simp only [hnot, Bool.false_eq_true, false_or, false_iff, not_and, true_iff]
      refine ⟨fun h1 => ⟨fun h2 => ⟨fun h3 => ⟨fun h4 => ⟨h1, h2, h3, h4⟩, ?_⟩, ?_⟩, ?_⟩, ?_⟩
      all_goals
        intro e he
        simp only [he, reduceCtorEq, false_implies, implies_true, not_false_eq_true]
    · have hinit : s.initialized = true := by simpa using hinit
      simp only [hinit, true_or]
  exact keeps_iff.mp hkeeps

/-! ## `new_group` -/

/-- How `new_group` ends: with a group whose communicator is new, or with none. -/
inductive NewGroupEnds (library : Library) (s : Instance) : Option CommGroup → Instance → Prop
  | nothing {t : Instance} (hinit : t.initialized = s.initialized) (hcomm : t.comm = s.comm)
      (hc : t.communicator.map Communicator.comm = s.communicator.map Communicator.comm)
      (hgroups : t.subGroups = s.subGroups) (hissued : t.issued = s.issued) :
      NewGroupEnds library s none t
  | made {t : Instance} {group : CommGroup} (h : s.initialized = true)
      (hnew : library.newComm = some group.handle) (hinit : t.initialized = s.initialized)
      (hcomm : t.comm = s.comm)
      (hc : t.communicator.map Communicator.comm = s.communicator.map Communicator.comm)
      (hgroups : t.subGroups = (group.handle, group) ::
        s.subGroups.filter fun entry => entry.1 ≠ group.handle)
      (hissued : t.issued = s.issued) : NewGroupEnds library s (some group) t

/-- What is asked of the `new_group` of a backend. -/
def CreatesGroups (newGroup : Library → List Int → Method (Option CommGroup)) : Prop :=
  ∀ library ranks s, wp (newGroup library ranks) (NewGroupEnds library s)
    (fun _ => NewGroupEnds library s none) s

section NewGroup

variable {library : Library} {s : Instance}

theorem NewGroupEnds.refl : NewGroupEnds library s none s := .nothing rfl rfl rfl rfl rfl

/-- A communicator that is there is entered with its group. -/
theorem enterSubGroup_ends {t : Instance} {newcomm : Option Int} {ranks : List Int}
    (h : s.initialized = true) (hnew : ∀ handle ∈ newcomm, library.newComm = some handle)
    (hinit : t.initialized = s.initialized) (hcomm : t.comm = s.comm)
    (hc : t.communicator.map Communicator.comm = s.communicator.map Communicator.comm)
    (hgroups : t.subGroups = s.subGroups) (hissued : t.issued = s.issued) :
    wp (enterSubGroup newcomm ranks) (NewGroupEnds library s)
      (fun _ => NewGroupEnds library s none) t := by
  cases newcomm with
  | none => exact .nothing hinit hcomm hc hgroups hissued
  | some handle =>
      refine .made h (hnew handle rfl) hinit hcomm hc ?_ hissued
      exact congrArg (fun groups => (handle, ⟨handle, ranks⟩) :: List.filter _ groups) hgroups

theorem Nccl.createsGroups : CreatesGroups Nccl.newGroup := by
  intro library ranks s
  rw [Nccl.newGroup, wp_bind, wp_requireInitialized]
  refine ⟨fun hinit => ?_, fun _ => .refl⟩
  simp only [communicator, wp_bind, wp_get]
  split
  · simp only [wp_pure, wp_attempt]
    refine ⟨fun _ => ?_, fun _ _ => .refl⟩
    apply enterSubGroup_ends hinit _ rfl rfl rfl rfl rfl
    intro handle hhandle
    split at hhandle
    · exact hhandle
    · cases hhandle
  · exact .refl

theorem Hccl.createsGroups : CreatesGroups Hccl.newGroup := by
  intro library ranks s
  rw [Hccl.newGroup, wp_bind, wp_requireInitialized]
  refine ⟨fun hinit => ?_, fun _ => .refl⟩
  simp only [createSubcomm, communicator, index, wp_bind, wp_get, wp_ite]
  refine ⟨fun _ => .refl, fun _ => ?_⟩
  split
  · rename_i c hc
    simp only [wp_pure, wp_require, wp_attempt, wp_modify]
    refine ⟨fun _ => ⟨fun _ => ?_, fun _ _ => .refl⟩, fun _ => .refl⟩
    refine enterSubGroup_ends hinit (fun _ h => h) rfl rfl ?_ rfl rfl
    rw [Option.map_map]
    rfl
  · exact .refl

/-- The rank stays, and the ranks of a group are those asked for. -/
def MakesGroupOf (newGroup : Library → List Int → Method (Option CommGroup)) : Prop :=
  ∀ library ranks s, wp (newGroup library ranks)
    (fun group t => t.rank = s.rank ∧ ∀ g ∈ group, g.ranks = groupRanks s.worldSize ranks)
    (fun _ t => t.rank = s.rank) s

theorem wp_enterSubGroup {t : Instance} {newcomm : Option Int} {ranks : List Int}
    {E : BackendError → Instance → Prop} :
    wp (enterSubGroup newcomm ranks)
      (fun group t' => t'.rank = t.rank ∧ ∀ g ∈ group, g.ranks = ranks) E t := by
  cases newcomm with
  | none => exact ⟨rfl, fun _ h => nomatch h⟩
  | some handle =>
      refine ⟨rfl, fun g hg => ?_⟩
      obtain rfl := Option.some.inj hg
      rfl

theorem Nccl.makesGroupOf : MakesGroupOf Nccl.newGroup := by
  intro library ranks s
  rw [Nccl.newGroup, wp_bind, wp_requireInitialized]
  refine ⟨fun _ => ?_, fun _ => rfl⟩
  simp only [communicator, wp_bind, wp_get]
  split
  · simp only [wp_pure, wp_attempt]
    exact ⟨fun _ => wp_enterSubGroup, fun _ _ => trivial⟩
  · rfl

theorem Hccl.makesGroupOf : MakesGroupOf Hccl.newGroup := by
  intro library ranks s
  rw [Hccl.newGroup, wp_bind, wp_requireInitialized]
  refine ⟨fun _ => ?_, fun _ => rfl⟩
  simp only [createSubcomm, communicator, index, wp_bind, wp_get, wp_ite, wp_pure]
  refine ⟨fun _ => ⟨trivial, fun _ h => by cases h⟩, fun _ => ?_⟩
  split
  · simp only [wp_pure, wp_require, wp_attempt, wp_modify]
    exact ⟨fun _ => ⟨fun _ => wp_enterSubGroup, fun _ _ => trivial⟩, fun _ => trivial⟩
  · rfl

end NewGroup

/-! ## `destroy_process_group` -/

/-- `destroy_process_group`, up to its call of `ncclCommDestroy`: the group, if it goes on
with one, and the handle it destroys.  `destroy_comm` takes a null handle for none. -/
def destroyTarget (group : Option CommGroup) : Method (Option CommGroup × Option Int) := do
  requireInitialized
  let self ← get
  match group.filter fun group => group.handle ∈ self.subGroups.map Prod.fst with
  | some group => do
      let c ← communicator
      return (some group, if group.handle = 0 then c.comm else some group.handle)
  | none => do
      let c ← communicator
      return (none, c.comm)

/-- `destroy_process_group`, from that call on. -/
def destroyRest (library : Library) : Option CommGroup × Option Int → Method Unit
  | (some group, _) => do
      attempt (library.raises .destroyComm)
      modify fun self =>
        { self with subGroups := self.subGroups.filter fun entry => entry.1 ≠ group.handle }
  | (none, _) => do
      attempt (library.raises .destroyComm)
      modify fun self => { self with communicator := none, initialized := false }

theorem destroyProcessGroup_eq (library : Library) (group : Option CommGroup) :
    destroyProcessGroup library group = destroyTarget group >>= destroyRest library := by
  simp only [destroyProcessGroup, destroyTarget, bind_assoc]
  congr; funext _; congr; funext self
  cases group.filter fun group => group.handle ∈ self.subGroups.map Prod.fst with
  | none => simp only [bind_assoc, pure_bind, destroyRest]
  | some group => simp only [bind_assoc, pure_bind, destroyRest]

/-- The handle that a call destroys, where the library does not raise. -/
def destroyedHandle (library : Library) (group : Option CommGroup) (self : Instance) :
    Option Int :=
  match destroyTarget group self with
  | .ok (_, handle) _ => if library.raises .destroyComm = none then handle else none
  | .error _ _ => none

/-- How `destroy_process_group` ends where `c` is in place: with the handle it has
destroyed. -/
inductive DestroyEnds (s : Instance) (c : Communicator) (group : Option CommGroup) :
    Option Int → Instance → Prop
  | raised : DestroyEnds s c group none s
  | group {g : CommGroup} (hgroup : group = some g) (h : g.handle ∈ s.subGroups.map Prod.fst) :
      DestroyEnds s c group (some g.handle)
        { s with subGroups := s.subGroups.filter fun entry => entry.1 ≠ g.handle }
  /-- The world is destroyed, also where the group is not known. -/
  | world (h : ∀ g ∈ group, g.handle ∉ s.subGroups.map Prod.fst) :
      DestroyEnds s c group c.comm { s with communicator := none, initialized := false }

section Destroy

variable {library : Library} {s : Instance} {c : Communicator} {group : Option CommGroup}

/-- A known group is the target, or the world is. -/
theorem destroyTarget_eq (hinit : s.initialized = true) (hc : s.communicator = some c)
    (hnull : ∀ g ∈ group, g.handle ≠ 0) :
    (∃ g, group = some g ∧ g.handle ∈ s.subGroups.map Prod.fst ∧
        destroyTarget group s = .ok (some g, some g.handle) s) ∨
      ((∀ g ∈ group, g.handle ∉ s.subGroups.map Prod.fst) ∧
        destroyTarget group s = .ok (none, c.comm) s) := by
  simp only [← wp_eq_iff, destroyTarget, wp_bind, wp_requireInitialized, wp_get]
  cases hfilter : group.filter fun group => group.handle ∈ s.subGroups.map Prod.fst with
  | none =>
      refine Or.inr ⟨by simpa using hfilter, fun _ => ?_, fun hnot => hnot hinit⟩
      simp only [communicator, wp_bind, wp_get, hc, wp_pure, and_self]
  | some g =>
      obtain ⟨hgroup, hknown⟩ := Option.filter_eq_some_iff.mp hfilter
      refine Or.inl ⟨g, hgroup, by simpa using hknown, fun _ => ?_, fun hnot => hnot hinit⟩
      simp only [communicator, wp_bind, wp_get, hc, wp_pure, if_neg (hnull g hgroup), and_self]

theorem destroyProcessGroup_ends (hinit : s.initialized = true) (hc : s.communicator = some c)
    (hnull : ∀ g ∈ group, g.handle ≠ 0) :
    DestroyEnds s c group (destroyedHandle library group s)
      (after (destroyProcessGroup library group) s) := by
  rw [destroyProcessGroup_eq]
  cases destroyTarget_eq hinit hc hnull with
  | inl h =>
      obtain ⟨g, hgroup, hknown, htarget⟩ := h
      rw [after_bind htarget, destroyedHandle, htarget, destroyRest]
      cases hraises : library.raises .destroyComm with
      | none => exact .group hgroup hknown
      | some e => exact .raised
  | inr h =>
      obtain ⟨hunknown, htarget⟩ := h
      rw [after_bind htarget, destroyedHandle, htarget, destroyRest]
      cases hraises : library.raises .destroyComm with
      | none => exact .world hunknown
      | some e => exact .raised

/-- A known group is destroyed where the library does not raise. -/
theorem destroyProcessGroup_group {g : CommGroup} (hinit : s.initialized = true)
    (hc : s.communicator = some c) (hnull : g.handle ≠ 0)
    (hknown : g.handle ∈ s.subGroups.map Prod.fst) (hraises : library.raises .destroyComm = none) :
    destroyedHandle library (some g) s = some g.handle ∧
      destroyProcessGroup library (some g) s = .ok ()
        { s with subGroups := s.subGroups.filter fun entry => entry.1 ≠ g.handle } := by
  have htarget : destroyTarget (some g) s = .ok (some g, some g.handle) s := by
    cases @destroyTarget_eq s c (some g) hinit hc (by simpa using hnull) with
    | inl h =>
        obtain ⟨g', hg', _, htarget⟩ := h
        obtain rfl := Option.some.inj hg'
        exact htarget
    | inr h => exact absurd hknown (h.1 g rfl)
  constructor
  · simp only [destroyedHandle, htarget, hraises, if_true]
  · rw [destroyProcessGroup_eq, ← wp_eq_iff, wp_bind, wp, htarget]
    simp [destroyRest, hraises]

/-- The world is destroyed where the library does not raise. -/
theorem destroyProcessGroup_world (hinit : s.initialized = true) (hc : s.communicator = some c)
    (hraises : library.raises .destroyComm = none) :
    destroyedHandle library none s = c.comm ∧ destroyProcessGroup library none s =
      .ok () { s with communicator := none, initialized := false } := by
  have htarget : destroyTarget none s = .ok (none, c.comm) s := by
    cases @destroyTarget_eq s c none hinit hc (by simp) with
    | inl h =>
        obtain ⟨_, hg, _⟩ := h
        cases hg
    | inr h => exact h.2
  constructor
  · simp only [destroyedHandle, htarget, hraises, if_true]
  · rw [destroyProcessGroup_eq, ← wp_eq_iff, wp_bind, wp, htarget]
    simp [destroyRest, hraises]

/-- Where the library raises, nothing is destroyed. -/
theorem destroyProcessGroup_raises {e : BackendError}
    (hraises : library.raises .destroyComm = some e) :
    destroyedHandle library group s = none ∧ after (destroyProcessGroup library group) s = s := by
  constructor
  · rw [destroyedHandle]
    split
    · simp [hraises]
    · rfl
  · have hkeeps : Keeps (destroyProcessGroup library group) (· = s) s := by
      rw [destroyProcessGroup, Keeps, wp_bind, wp_requireInitialized]
      refine ⟨fun _ => ?_, fun _ => rfl⟩
      rw [wp_bind, wp_get]
      split
      all_goals
        simp only [communicator, wp_bind, wp_get]
        split
        · simp [hraises]
        · rfl
    exact keeps_iff.mp hkeeps

theorem destroy_uninitialised (h : ¬ s.initialized = true) :
    destroyedHandle library group s = none ∧
      after (destroyProcessGroup library group) s = s := by
  refine ⟨?_, after_requireInitialized h⟩
  have hwp : wp (destroyTarget group) (fun _ _ => False) (fun _ _ => True) s := by
    rw [destroyTarget, wp_bind, wp_requireInitialized]
    exact ⟨fun hinit => absurd hinit h, fun _ => trivial⟩
  rw [destroyedHandle]
  rw [wp] at hwp
  split
  · rename_i heq
    rw [heq] at hwp
    exact hwp.elim
  · rfl

end Destroy

end CheckpointEngine.Distributed
