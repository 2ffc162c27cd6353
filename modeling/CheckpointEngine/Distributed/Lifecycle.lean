/-
  `Distributed.Lifecycle`: the communicators of a backend, from their creation to their
  destruction, over any sequence of calls.

  A ledger beside the backend notes every communicator that the library has made and how
  often it was destroyed.  Calls are given group objects that earlier calls returned.
-/
import CheckpointEngine.Distributed.Effects
import CheckpointEngine.Foundation.Handles

set_option autoImplicit false

namespace CheckpointEngine.Distributed

open CheckpointEngine.Foundation
open CheckpointEngine.Foundation.Command

/-- What a communicator is for: the world of this number, or a group in it. -/
inductive Purpose where
  | world (number : Nat)
  | group (number : Nat) (ranks : List Int)
  deriving DecidableEq, Repr

def Purpose.number : Purpose → Nat
  | .world number | .group number _ => number

/-- A backend, the communicators made so far, and how often a world was initialised. -/
structure History where
  self : Instance
  ledger : Ledger Int Purpose
  worlds : Nat

/-- A call, what the library answers, and the number of the group object it is given. -/
structure Turn where
  library : Library
  call : Call
  object : Option Nat

namespace History

def start : History := ⟨.new, .empty, 0⟩

/-- The group object that `new_group` returned with the communicator. -/
def group (s : History) (i : Nat) : Option CommGroup :=
  match s.ledger.resources[i]? with
  | some ⟨handle, .group _ ranks⟩ => some ⟨handle, ranks⟩
  | _ => none

/-- The keys of `sub_groups`. -/
def handles (s : History) : List Int := s.self.subGroups.map Prod.fst

/-- The call is given an object there is, and the library makes communicators with handles
that no communicator has which is left.  The handle of a group is not null. -/
structure Admits (s : History) (turn : Turn) : Prop where
  object : turn.object.map s.group = turn.call.group.map some
  worldComm : s.ledger.Fresh turn.library.worldComm
  newComm : ∀ handle ∈ turn.library.newComm, s.ledger.Fresh handle ∧ handle ≠ 0

instance (s : History) (turn : Turn) : Decidable (s.Admits turn) :=
  decidable_of_iff (turn.object.map s.group = turn.call.group.map some ∧
      s.ledger.Fresh turn.library.worldComm ∧
      ∀ handle ∈ turn.library.newComm, s.ledger.Fresh handle ∧ handle ≠ 0)
    ⟨fun h => ⟨h.1, h.2.1, h.2.2⟩, fun h => ⟨h.1, h.2, h.3⟩⟩

/-- The history goes on with the backend in this state. -/
def continued (s : History) (self : Instance) : History := { s with self }

/-- It goes on with a new world, if the backend has been initialised. -/
def initialise (s : History) (self : Instance) (handle : Int) : History :=
  if s.self.initialized = false ∧ self.initialized = true then
    ⟨self, s.ledger.create handle (.world (s.worlds + 1)), s.worlds + 1⟩
  else s.continued self

/-- It goes on with a new group, if there is one. -/
def enter (s : History) (self : Instance) : Option CommGroup → History
  | some group =>
      ⟨self, s.ledger.create group.handle (.group s.worlds group.ranks), s.worlds⟩
  | none => s.continued self

/-- It goes on without what has been destroyed, if anything has. -/
def discard (s : History) (self : Instance) : Option Int → History
  | some handle => ⟨self, s.ledger.destroy handle, s.worlds⟩
  | none => s.continued self

/-- The value of a call that returns one. -/
def returned (c : Method (Option CommGroup)) (self : Instance) : Option CommGroup :=
  match c self with
  | .ok group _ => group
  | .error _ _ => none

/-- The call, with what it makes and destroys. -/
def next (newGroup : Library → List Int → Method (Option CommGroup)) (s : History)
    (turn : Turn) : History :=
  let self := after (perform newGroup turn.library turn.call) s.self
  match turn.call with
  | .initProcessGroup .. => s.initialise self turn.library.worldComm
  | .newGroup ranks => s.enter self (returned (newGroup turn.library ranks) s.self)
  | .destroyProcessGroup group => s.discard self (destroyedHandle turn.library group s.self)
  | .allReduce _ | .broadcast .. | .barrier _ | .allGatherObject _ => s.continued self

end History

/-- A process calls its backend as it likes. -/
def lifecycle (newGroup : Library → List Int → Method (Option CommGroup)) :
    Machine History Turn where
  init := .start
  step s turn := if s.Admits turn then some (History.next newGroup s turn) else none

/-! ## Usable communicators -/

namespace History

/-- The communicator of the world has been destroyed. -/
def WorldDestroyed (s : History) (number : Nat) : Prop :=
  ∃ i < s.ledger.resources.length, ∃ r ∈ s.ledger.resources[i]?,
    r.purpose = .world number ∧ s.ledger.destroyed i ≠ 0

/-- Neither the communicator that the handle stands for has been destroyed, nor its world's. -/
def Usable (s : History) (handle : Int) : Prop :=
  ∃ i ∈ s.ledger.holder handle, s.ledger.destroyed i = 0 ∧
    ∀ r ∈ s.ledger.resources[i]?, ¬ s.WorldDestroyed r.purpose.number

/-- A collective without a group finds its communicator. -/
def WorldUsable (s : History) : Prop :=
  s.self.initialized = true ∧ s.self.communicator.isSome ∧
    ∃ handle ∈ s.self.comm, s.Usable handle

/-- A collective with the group object finds its communicator. -/
def GroupUsable (s : History) (i : Nat) : Prop :=
  s.self.initialized = true ∧ s.ledger.destroyed i = 0 ∧
    ∃ group ∈ s.group i, group.handle ∈ s.handles ∧ s.Usable group.handle

instance (s : History) (number : Nat) : Decidable (s.WorldDestroyed number) :=
  inferInstanceAs (Decidable (∃ i < s.ledger.resources.length, ∃ r ∈ s.ledger.resources[i]?,
    r.purpose = .world number ∧ s.ledger.destroyed i ≠ 0))

instance (s : History) (handle : Int) : Decidable (s.Usable handle) :=
  inferInstanceAs (Decidable (∃ i ∈ s.ledger.holder handle, s.ledger.destroyed i = 0 ∧
    ∀ r ∈ s.ledger.resources[i]?, ¬ s.WorldDestroyed r.purpose.number))

/-- A broadcast that failed has left the communicator of the group in place. -/
def SwitchedTo (s : History) (group : CommGroup) : Prop :=
  ∃ c ∈ s.self.communicator, c.comm = some group.handle

/-- The handle of the group is that of one from an earlier world. -/
def LeftOver (s : History) (group : CommGroup) : Prop :=
  group.handle ∈ s.handles ∧ ∃ i ∈ s.ledger.holder group.handle,
    ∃ r ∈ s.ledger.resources[i]?, r.purpose.number ≠ s.worlds

end History

/-- The call destroys a process group. -/
def Call.Destroys : Call → Prop
  | .destroyProcessGroup _ => True
  | .initProcessGroup .. | .newGroup _ | .allReduce _ | .broadcast .. | .barrier _
  | .allGatherObject _ => False

/-- No group is destroyed that has been destroyed before or that a failed broadcast has left
in place, and no collective is called with a group that an earlier world has left. -/
structure Permitted (s : History) (turn : Turn) : Prop where
  once : s.self.initialized = true → turn.call.Destroys →
    ∀ i ∈ turn.object, s.ledger.destroyed i = 0
  notSwitched : s.self.initialized = true → turn.call.Destroys →
    ∀ group ∈ turn.call.group, ¬ s.SwitchedTo group
  notLeftOver : s.self.initialized = true → turn.call.Collective →
    ∀ group ∈ turn.call.group, ¬ s.LeftOver group

instance : (call : Call) → Decidable call.Collective
  | .initProcessGroup .. | .newGroup _ | .destroyProcessGroup _ => .isFalse id
  | .allReduce _ | .broadcast .. | .barrier _ | .allGatherObject _ => .isTrue trivial

instance : (call : Call) → Decidable call.Destroys
  | .destroyProcessGroup _ => .isTrue trivial
  | .initProcessGroup .. | .newGroup _ | .allReduce _ | .broadcast .. | .barrier _
  | .allGatherObject _ => .isFalse id

instance (s : History) (group : CommGroup) : Decidable (s.SwitchedTo group) :=
  inferInstanceAs (Decidable (∃ c ∈ s.self.communicator, c.comm = some group.handle))

instance (s : History) (group : CommGroup) : Decidable (s.LeftOver group) :=
  inferInstanceAs (Decidable (group.handle ∈ s.handles ∧
    ∃ i ∈ s.ledger.holder group.handle, ∃ r ∈ s.ledger.resources[i]?,
      r.purpose.number ≠ s.worlds))

instance (s : History) (turn : Turn) : Decidable (Permitted s turn) :=
  decidable_of_iff
    ((s.self.initialized = true → turn.call.Destroys →
        ∀ i ∈ turn.object, s.ledger.destroyed i = 0) ∧
      (s.self.initialized = true → turn.call.Destroys →
        ∀ group ∈ turn.call.group, ¬ s.SwitchedTo group) ∧
      (s.self.initialized = true → turn.call.Collective →
        ∀ group ∈ turn.call.group, ¬ s.LeftOver group))
    ⟨fun h => ⟨h.1, h.2.1, h.2.2⟩, fun h => ⟨h.1, h.2, h.3⟩⟩

/-- The call runs no collective on a communicator that was destroyed or whose world was, and
where it is to destroy a group it leaves the world and the other groups usable. -/
structure TurnSafe (s t : History) (turn : Turn) : Prop where
  issued : ∃ l, t.self.issued = s.self.issued ++ l ∧
    ∀ entry ∈ l, ∃ handle ∈ entry.2.1, s.Usable handle
  others : s.self.initialized = true → turn.call.Destroys → ∀ i ∈ turn.object,
    t.WorldUsable ∧ ∀ j, j ≠ i → s.GroupUsable j → t.GroupUsable j

/-- No communicator has been destroyed twice, and every call that satisfies `P` is safe. -/
def LifecycleSafe (newGroup : Library → List Int → Method (Option CommGroup))
    (P : History → Turn → Prop) (s : History) : Prop :=
  (∀ i, s.ledger.destroyed i ≤ 1) ∧
    ∀ turn t, P s turn → (lifecycle newGroup).step s turn = some t → TurnSafe s t turn

/-! ## The invariant -/

/-- The ledger is sound, `sub_groups` has every group that is left, and an initialised
backend has its world communicator, which is left, and one of this world in place. -/
structure Alive (s : History) : Prop where
  sound : s.ledger.Sound
  number_le : ∀ {i : Nat} {handle : Int} {purpose : Purpose},
    s.ledger.resources[i]? = some ⟨handle, purpose⟩ → purpose.number ≤ s.worlds
  notNull : ∀ {i group}, s.group i = some group → group.handle ≠ 0
  known : ∀ {i group}, s.group i = some group → s.ledger.destroyed i = 0 →
    group.handle ∈ s.handles
  keyed : ∀ {handle : Int}, handle ∈ s.handles → ∃ i, s.ledger.holder handle = some i ∧
    ∀ purpose : Purpose, s.ledger.resources[i]? = some ⟨handle, purpose⟩ →
      s.self.initialized = true → purpose.number = s.worlds → s.ledger.destroyed i = 0
  worldLive : s.self.initialized = true → ∀ {i : Nat} {handle : Int},
    s.ledger.resources[i]? = some ⟨handle, .world s.worlds⟩ → s.ledger.destroyed i = 0
  world : s.self.initialized = true → ∃ handle i, s.self.comm = some handle ∧
    s.ledger.Stands handle i (.world s.worlds)
  inPlace : s.self.initialized = true → ∃ c handle i purpose, s.self.communicator = some c ∧
    c.comm = some handle ∧ s.ledger.Stands handle i purpose ∧ purpose.number = s.worlds

section Invariant

variable {s : History}

theorem History.group_eq_some {i : Nat} {group : CommGroup} :
    s.group i = some group ↔
      ∃ number, s.ledger.resources[i]? = some ⟨group.handle, .group number group.ranks⟩ := by
  rw [History.group]
  constructor
  · intro h
    split at h
    · rename_i number ranks hi
      obtain rfl := Option.some.inj h
      exact ⟨number, hi⟩
    · cases h
  · intro ⟨number, hi⟩
    rw [hi]

theorem Alive.start : Alive .start where
  sound := .init
  number_le h := nomatch h
  notNull h := nomatch h
  known h := nomatch h
  keyed h := nomatch h
  worldLive h := nomatch h
  world h := nomatch h
  inPlace h := nomatch h

/-- The world of an initialised backend has not been destroyed. -/
theorem Alive.not_worldDestroyed (h : Alive s) (hinit : s.self.initialized = true) :
    ¬ s.WorldDestroyed s.worlds := by
  intro ⟨i, _, ⟨handle, purpose⟩, hi, hworld, hdestroyed⟩
  obtain rfl : purpose = .world s.worlds := hworld
  exact hdestroyed (h.worldLive hinit hi)

/-- What stands in the world of an initialised backend is usable. -/
theorem Alive.usable (h : Alive s) (hinit : s.self.initialized = true) {handle : Int} {i : Nat}
    {purpose : Purpose} (hstands : s.ledger.Stands handle i purpose)
    (hnumber : purpose.number = s.worlds) : s.Usable handle := by
  refine ⟨i, hstands.holder, hstands.destroyed, fun r hr => ?_⟩
  obtain rfl := Option.some.inj (hstands.resource.symm.trans hr)
  rw [hnumber]
  exact h.not_worldDestroyed hinit

theorem Alive.worldUsable (h : Alive s) (hinit : s.self.initialized = true) :
    s.WorldUsable := by
  obtain ⟨handle, i, hcomm, hstands⟩ := h.world hinit
  obtain ⟨c, _, _, _, hc, _⟩ := h.inPlace hinit
  refine ⟨hinit, ?_, handle, hcomm, h.usable hinit hstands rfl⟩
  rw [hc]
  rfl

/-- The handle of the communicator in place stands in this world. -/
theorem Alive.placed (h : Alive s) (hinit : s.self.initialized = true) :
    ∃ handle i purpose, s.self.communicator.map Communicator.comm = some (some handle) ∧
      s.ledger.Stands handle i purpose ∧ purpose.number = s.worlds := by
  obtain ⟨c, handle, i, purpose, hc, hcomm, hstands, hnumber⟩ := h.inPlace hinit
  exact ⟨handle, i, purpose, by rw [hc, Option.map_some, hcomm], hstands, hnumber⟩

/-- A known handle that no earlier world has left stands in the world there is. -/
theorem Alive.stands_of_known (h : Alive s) (hinit : s.self.initialized = true)
    {group : CommGroup} (hknown : group.handle ∈ s.handles) (hleft : ¬ s.LeftOver group) :
    ∃ i purpose, s.ledger.Stands group.handle i purpose ∧ purpose.number = s.worlds := by
  obtain ⟨i, hholder, hlive⟩ := h.keyed hknown
  obtain ⟨purpose, hi⟩ := h.sound.held hholder
  have hnumber : purpose.number = s.worlds := by
    by_contra hne
    exact hleft ⟨hknown, i, hholder, _, hi, hne⟩
  exact ⟨i, purpose, ⟨hholder, hi, hlive _ hi hinit hnumber⟩, hnumber⟩

theorem History.handles_continued {self : Instance}
    (hgroups : self.subGroups = s.self.subGroups) : (s.continued self).handles = s.handles :=
  congrArg (List.map Prod.fst) hgroups

/-- A backend with the same groups and world, and a communicator in place that is left. -/
theorem Alive.replace (h : Alive s) {self : Instance}
    (hinit : self.initialized = s.self.initialized) (hgroups : self.subGroups = s.self.subGroups)
    (hcomm : self.comm = s.self.comm)
    (hplace : s.self.initialized = true → ∃ c handle i purpose, self.communicator = some c ∧
      c.comm = some handle ∧ s.ledger.Stands handle i purpose ∧ purpose.number = s.worlds) :
    Alive (s.continued self) where
  sound := h.sound
  number_le := h.number_le
  notNull := h.notNull
  known hgroup hlive := by
    rw [History.handles_continued hgroups]
    exact h.known hgroup hlive
  keyed {handle} hhandle := by
    rw [History.handles_continued hgroups] at hhandle
    obtain ⟨i, hholder, hlive⟩ := h.keyed hhandle
    exact ⟨i, hholder, fun r hr hinit' => hlive r hr (hinit ▸ hinit')⟩
  worldLive hinit' := h.worldLive (hinit ▸ hinit')
  world hinit' := by
    obtain ⟨handle, i, hworld, hstands⟩ := h.world (hinit ▸ hinit')
    exact ⟨handle, i, hcomm.trans hworld, hstands⟩
  inPlace hinit' := hplace (hinit ▸ hinit')

end Invariant

/-! ## One call -/

section Calls

variable {newGroup : Library → List Int → Method (Option CommGroup)} {s : History} {turn : Turn}

theorem Call.Collective.not_destroys {call : Call} (h : call.Collective) : ¬ call.Destroys := by
  cases call with
  | destroyProcessGroup => exact h.elim
  | initProcessGroup | newGroup | allReduce | broadcast | barrier | allGatherObject => exact id

/-- A call that runs no collective and destroys nothing is safe. -/
theorem TurnSafe.of_issued {t : History} (hissued : t.self.issued = s.self.issued)
    (hcall : ¬ turn.call.Destroys) : TurnSafe s t turn where
  issued := ⟨[], by rw [hissued, List.append_nil], fun _ h => nomatch h⟩
  others _ hdestroys := absurd hdestroys hcall

theorem next_collective (hcall : turn.call.Collective) : History.next newGroup s turn =
    s.continued (after (perform newGroup turn.library turn.call) s.self) := by
  obtain ⟨library, call, object⟩ := turn
  cases call with
  | initProcessGroup | newGroup | destroyProcessGroup => exact hcall.elim
  | allReduce | broadcast | barrier | allGatherObject => rfl

/-- The backend behind a call is in the state that the call leaves. -/
theorem History.next_self :
    (History.next newGroup s turn).self =
      after (perform newGroup turn.library turn.call) s.self := by
  obtain ⟨library, call, object⟩ := turn
  cases call with
  | initProcessGroup =>
      simp only [History.next, History.initialise]
      split <;> rfl
  | newGroup ranks =>
      simp only [History.next]
      cases History.returned (newGroup library ranks) s.self <;> rfl
  | destroyProcessGroup group =>
      simp only [History.next]
      cases destroyedHandle library group s.self <;> rfl
  | allReduce | broadcast | barrier | allGatherObject => rfl

/-- A collective runs on a communicator of this world, and leaves one in place. -/
theorem Alive.collective (h : Alive s) (hpermitted : Permitted s turn)
    (hcall : turn.call.Collective) :
    Alive (History.next newGroup s turn) ∧ TurnSafe s (History.next newGroup s turn) turn := by
  rw [next_collective hcall]
  by_cases hinit : s.self.initialized = true
  · obtain ⟨c, handle, i, purpose, hc, hcomm, hstands, hnumber⟩ := h.inPlace hinit
    have hends := @perform_collective newGroup turn.library _ _ _ hinit hc hcall
    have hleft := hpermitted.notLeftOver hinit hcall
    generalize turn.call.group = group at hends hleft
    generalize after (perform newGroup turn.library turn.call) s.self = self at hends ⊢
    cases hends with
    | world hl =>
        refine ⟨h.replace rfl rfl rfl h.inPlace, ⟨_, rfl, fun entry hentry => ?_⟩,
          fun _ hdestroys => absurd hdestroys hcall.not_destroys⟩
        exact ⟨handle, (hl entry hentry).trans hcomm, h.usable hinit hstands hnumber⟩
    | unknown => exact ⟨h, .of_issued rfl hcall.not_destroys⟩
    | @group group l comm rank hknown hput hl =>
        obtain ⟨j, purpose', hgroup, hnumber'⟩ :=
          h.stands_of_known hinit hknown (hleft group rfl)
        obtain ⟨handle, i, purpose, hcomm, hstands, hnumber⟩ : ∃ handle i purpose,
            comm = some handle ∧ s.ledger.Stands handle i purpose ∧
              purpose.number = s.worlds := by
          cases hput with
          | inl hworld =>
              obtain ⟨worldHandle, k, hcomm, hstands⟩ := h.world hinit
              exact ⟨worldHandle, k, _, hworld.trans hcomm, hstands, rfl⟩
          | inr hleaves => exact ⟨group.handle, j, purpose', hleaves, hgroup, hnumber'⟩
        refine ⟨h.replace rfl rfl rfl fun _ => ?_, ⟨l, rfl, fun entry hentry => ?_⟩,
          fun _ hdestroys => absurd hdestroys hcall.not_destroys⟩
        · exact ⟨_, handle, i, purpose, rfl, hcomm, hstands, hnumber⟩
        · exact ⟨group.handle, hl entry hentry, h.usable hinit hgroup hnumber'⟩
  · rw [perform_collective_uninitialised hinit hcall]
    exact ⟨h, .of_issued rfl hcall.not_destroys⟩

/-- A new world: its communicator stands under its handle, and is in place. -/
theorem Alive.initialised (h : Alive s) {self : Instance} {c : Communicator} {handle : Int}
    (hfresh : s.ledger.Fresh handle) (hc : self.communicator = some c)
    (hcomm : c.comm = some handle) (hworld : self.comm = some handle)
    (hgroups : self.subGroups = s.self.subGroups) :
    Alive ⟨self, s.ledger.create handle (.world (s.worlds + 1)), s.worlds + 1⟩ := by
  have hnew : ∀ {i : Nat} {handle' : Int} {purpose : Purpose},
      (s.ledger.create handle (.world (s.worlds + 1))).resources[i]? = some ⟨handle', purpose⟩ →
        (s.ledger.resources[i]? = some ⟨handle', purpose⟩ ∧ purpose.number ≤ s.worlds) ∨
          i = s.ledger.resources.length ∧ purpose = .world (s.worlds + 1) := by
    intro i handle' purpose hi
    cases Ledger.resource_create_iff.mp hi with
    | inl hold => exact Or.inl ⟨hold, h.number_le hold⟩
    | inr hnew => exact Or.inr ⟨hnew.1, congrArg Resource.purpose hnew.2⟩
  have hgroup : ∀ {i : Nat} {group : CommGroup},
      History.group ⟨self, s.ledger.create handle (.world (s.worlds + 1)), s.worlds + 1⟩ i =
        some group → s.group i = some group := by
    intro i group hi
    obtain ⟨number, hi⟩ := History.group_eq_some.mp hi
    cases hnew hi with
    | inl hold => exact History.group_eq_some.mpr ⟨number, hold.1⟩
    | inr hnew => cases hnew.2
  have hunmade : s.ledger.destroyed s.ledger.resources.length = 0 :=
    h.sound.unmade (Nat.le_refl _)
  constructor
  case sound => exact h.sound.create hfresh
  case number_le =>
    intro i handle' purpose hi
    cases hnew hi with
    | inl hold => exact Nat.le_succ_of_le hold.2
    | inr hnew => exact Nat.le_of_eq (congrArg Purpose.number hnew.2)
  case notNull => exact fun hi => h.notNull (hgroup hi)
  case known =>
    intro i group hi hlive
    rw [History.handles, hgroups]
    exact h.known (hgroup hi) hlive
  case keyed =>
    intro handle' hhandle
    rw [History.handles, hgroups] at hhandle
    by_cases heq : handle' = handle
    · exact ⟨_, (Ledger.holder_create _).trans (if_pos heq), fun _ _ _ _ => hunmade⟩
    · obtain ⟨i, hholder, _⟩ := h.keyed hhandle
      refine ⟨i, (Ledger.holder_create _).trans ((if_neg heq).trans hholder), ?_⟩
      intro purpose hi _ hnumber
      cases hnew hi with
      | inl hold => exact absurd (hnumber ▸ hold.2) (Nat.not_succ_le_self _)
      | inr hnew => rw [hnew.1]; exact hunmade
  case worldLive =>
    intro _ i handle' hi
    cases hnew hi with
    | inl hold => exact absurd hold.2 (Nat.not_succ_le_self _)
    | inr hnew => rw [hnew.1]; exact hunmade
  case world => exact fun _ => ⟨handle, _, hworld, h.sound.stands_create_self⟩
  case inPlace =>
    exact fun _ => ⟨c, handle, _, _, hc, hcomm, h.sound.stands_create_self, rfl⟩

/-- Without a world only the groups matter. -/
theorem Alive.of_uninitialised (hinit : s.self.initialized = false) (hsound : s.ledger.Sound)
    (hnumber : ∀ {i : Nat} {handle : Int} {purpose : Purpose},
      s.ledger.resources[i]? = some ⟨handle, purpose⟩ → purpose.number ≤ s.worlds)
    (hnull : ∀ {i group}, s.group i = some group → group.handle ≠ 0)
    (hknown : ∀ {i group}, s.group i = some group → s.ledger.destroyed i = 0 →
      group.handle ∈ s.handles)
    (hkeyed : ∀ {handle : Int}, handle ∈ s.handles → ∃ i, s.ledger.holder handle = some i) :
    Alive s where
  sound := hsound
  number_le := hnumber
  notNull := hnull
  known := hknown
  keyed hhandle := by
    obtain ⟨i, hholder⟩ := hkeyed hhandle
    exact ⟨i, hholder, fun _ _ hinit' => absurd (hinit.symm.trans hinit') Bool.false_ne_true⟩
  worldLive hinit' := absurd (hinit.symm.trans hinit') Bool.false_ne_true
  world hinit' := absurd (hinit.symm.trans hinit') Bool.false_ne_true
  inPlace hinit' := absurd (hinit.symm.trans hinit') Bool.false_ne_true

theorem Alive.holder_of_handle (h : Alive s) {handle : Int} (hhandle : handle ∈ s.handles) :
    ∃ i, s.ledger.holder handle = some i := by
  obtain ⟨i, hholder, _⟩ := h.keyed hhandle
  exact ⟨i, hholder⟩

theorem Alive.uninitialised (h : Alive s) {self : Instance} (hinit : self.initialized = false)
    (hgroups : self.subGroups = s.self.subGroups) : Alive (s.continued self) := by
  have hhandles := History.handles_continued hgroups
  apply Alive.of_uninitialised (s := s.continued self) hinit h.sound h.number_le h.notNull
  · intro i group hgroup hlive
    rw [hhandles]
    exact h.known hgroup hlive
  · intro handle hhandle
    rw [hhandles] at hhandle
    exact h.holder_of_handle hhandle

theorem Alive.ofInit (h : Alive s) {handle : Int} (hfresh : s.ledger.Fresh handle)
    {library : Library} (hlibrary : library.worldComm = handle) {self : Instance}
    (hends : InitEnds library s.self self) :
    Alive (s.initialise self handle) ∧ (s.initialise self handle).self.issued = s.self.issued := by
  rw [History.initialise]
  cases hends with
  | already hinit =>
      rw [if_neg fun hnew => by rw [hinit] at hnew; cases hnew.1]
      exact ⟨h, rfl⟩
  | failed _ hinit hgroups hissued =>
      rw [if_neg fun hnew => by rw [hinit] at hnew; cases hnew.2]
      exact ⟨h.uninitialised hinit hgroups, hissued⟩
  | initialised hnot hinit hc hcomm hworld hgroups hissued =>
      subst hlibrary
      rw [if_pos ⟨hnot, hinit⟩]
      exact ⟨h.initialised hfresh hc hcomm hworld hgroups, hissued⟩

theorem mem_handles_filter {groups : List (Int × CommGroup)} {handle handle' : Int} :
    handle' ∈ (groups.filter fun entry => entry.1 ≠ handle).map Prod.fst ↔
      handle' ≠ handle ∧ handle' ∈ groups.map Prod.fst := by
  simp only [List.mem_map, List.mem_filter, decide_eq_true_eq]
  constructor
  · intro ⟨entry, ⟨hmem, hne⟩, heq⟩
    exact ⟨heq ▸ hne, entry, hmem, heq⟩
  · intro ⟨hne, entry, hmem, heq⟩
    exact ⟨entry, ⟨hmem, heq ▸ hne⟩, heq⟩

/-- A new group: its communicator stands under its handle, and `sub_groups` has it. -/
theorem Alive.made (h : Alive s) {self : Instance} {group : CommGroup}
    (hfresh : s.ledger.Fresh group.handle) (hnull : group.handle ≠ 0)
    (hinit : self.initialized = s.self.initialized) (hcomm : self.comm = s.self.comm)
    (hc : self.communicator.map Communicator.comm = s.self.communicator.map Communicator.comm)
    (hgroups : self.subGroups = (group.handle, group) ::
      s.self.subGroups.filter fun entry => entry.1 ≠ group.handle) :
    Alive (s.enter self (some group)) := by
  have hold : ∀ {i : Nat} {handle : Int} {purpose : Purpose},
      (s.enter self (some group)).ledger.resources[i]? = some ⟨handle, purpose⟩ →
        s.ledger.resources[i]? = some ⟨handle, purpose⟩ ∨
          i = s.ledger.resources.length ∧ handle = group.handle ∧
            purpose = .group s.worlds group.ranks := by
    intro i handle purpose hi
    cases Ledger.resource_create_iff.mp hi with
    | inl hold => exact Or.inl hold
    | inr hnew =>
        exact Or.inr ⟨hnew.1, congrArg Resource.handle hnew.2, congrArg Resource.purpose hnew.2⟩
  have hhandles : ∀ {handle}, handle ∈ (s.enter self (some group)).handles ↔
      handle = group.handle ∨ handle ∈ s.handles := by
    intro handle
    change handle ∈ self.subGroups.map Prod.fst ↔ _
    rw [hgroups, List.map_cons, List.mem_cons, mem_handles_filter]
    exact or_congr_right' fun hne => and_iff_right hne
  have hunmade : s.ledger.destroyed s.ledger.resources.length = 0 :=
    h.sound.unmade (Nat.le_refl _)
  constructor
  case sound => exact h.sound.create hfresh
  case number_le =>
    intro i handle purpose hi
    cases hold hi with
    | inl hold => exact h.number_le hold
    | inr hnew => exact Nat.le_of_eq (congrArg Purpose.number hnew.2.2)
  case notNull =>
    intro i other hi
    obtain ⟨number, hi⟩ := History.group_eq_some.mp hi
    cases hold hi with
    | inl hold => exact h.notNull (History.group_eq_some.mpr ⟨number, hold⟩)
    | inr hnew => exact hnew.2.1 ▸ hnull
  case known =>
    intro i other hi hlive
    obtain ⟨number, hi⟩ := History.group_eq_some.mp hi
    cases hold hi with
    | inl hold =>
        have hknown := h.known (History.group_eq_some.mpr ⟨number, hold⟩) hlive
        exact hhandles.mpr (Or.inr hknown)
    | inr hnew => exact hhandles.mpr (Or.inl hnew.2.1)
  case keyed =>
    intro handle hhandle
    by_cases heq : handle = group.handle
    · exact ⟨_, (Ledger.holder_create _).trans (if_pos heq), fun _ _ _ _ => hunmade⟩
    · obtain ⟨i, hholder, hlive⟩ := h.keyed ((hhandles.mp hhandle).resolve_left heq)
      refine ⟨i, (Ledger.holder_create _).trans ((if_neg heq).trans hholder), ?_⟩
      intro purpose hi hinit' hnumber
      cases hold hi with
      | inl hold => exact hlive purpose hold (hinit ▸ hinit') hnumber
      | inr hnew => exact absurd hnew.2.1 heq
  case worldLive =>
    intro hinit' i handle hi
    cases hold hi with
    | inl hold => exact h.worldLive (hinit ▸ hinit') hold
    | inr hnew => cases hnew.2.2
  case world =>
    intro hinit'
    obtain ⟨handle, i, hworld, hstands⟩ := h.world (hinit ▸ hinit')
    exact ⟨handle, i, hcomm.trans hworld, hstands.create (hfresh.ne hstands)⟩
  case inPlace =>
    intro hinit'
    obtain ⟨handle, i, purpose, hplace, hstands, hnumber⟩ := h.placed (hinit ▸ hinit')
    obtain ⟨c, hself, hhandle⟩ := Option.map_eq_some_iff.mp (hc.trans hplace)
    exact ⟨c, handle, i, purpose, hself, hhandle, hstands.create (hfresh.ne hstands), hnumber⟩

theorem Alive.ofNewGroup (h : Alive s) (hadmits : s.Admits turn) {self : Instance}
    {group : Option CommGroup} (hends : NewGroupEnds turn.library s.self group self) :
    Alive (s.enter self group) ∧ (s.enter self group).self.issued = s.self.issued := by
  cases hends with
  | nothing hinit hcomm hc hgroups hissued =>
      refine ⟨h.replace hinit hgroups hcomm fun hinit' => ?_, hissued⟩
      obtain ⟨handle, i, purpose, hplace, hstands, hnumber⟩ := h.placed hinit'
      obtain ⟨c, hself, hhandle⟩ := Option.map_eq_some_iff.mp (hc.trans hplace)
      exact ⟨c, handle, i, purpose, hself, hhandle, hstands, hnumber⟩
  | made _ hnew hinit hcomm hc hgroups hissued =>
      obtain ⟨hfresh, hnull⟩ := hadmits.newComm _ hnew
      exact ⟨h.made hfresh hnull hinit hcomm hc hgroups, hissued⟩

section Discard

variable {self : Instance} {handle : Int} {i : Nat} {purpose : Purpose}

theorem History.resources_discard {handle : Option Int} :
    (s.discard self handle).ledger.resources = s.ledger.resources := by
  cases handle with
  | none => rfl
  | some handle => exact Ledger.resources_destroy

theorem History.holder_discard {handle : Option Int} :
    (s.discard self handle).ledger.holder = s.ledger.holder := by
  cases handle with
  | none => rfl
  | some handle => exact Ledger.holder_destroy

theorem History.group_discard {handle : Option Int} (j : Nat) :
    (s.discard self handle).group j = s.group j := by
  rw [History.group, History.resources_discard, History.group]

/-- A group that is left after a destruction was known before, with another handle. -/
theorem Alive.known_of_discard (h : Alive s) (hstands : s.ledger.Stands handle i purpose) {j : Nat}
    {group : CommGroup} (hgroup : s.group j = some group)
    (hlive : (s.ledger.destroy handle).destroyed j = 0) :
    group.handle ≠ handle ∧ group.handle ∈ s.handles := by
  obtain ⟨hne, hlive⟩ := Ledger.live_of_destroy hstands hlive
  obtain ⟨number, hj⟩ := History.group_eq_some.mp hgroup
  refine ⟨fun heq => hne ?_, h.known hgroup hlive⟩
  have hstands' := h.sound.stands_of_live hj hlive
  rw [heq] at hstands'
  exact (hstands'.unique hstands).1

/-- Without a group: its communicator is gone, and `sub_groups` has it no longer. -/
theorem Alive.discardGroup (h : Alive s) {group : CommGroup} {number : Nat} {ranks : List Int}
    (hstands : s.ledger.Stands group.handle i (.group number ranks))
    (hplace : ¬ s.SwitchedTo group) (hinit : self.initialized = s.self.initialized)
    (hcomm : self.comm = s.self.comm) (hc : self.communicator = s.self.communicator)
    (hgroups : self.subGroups =
      s.self.subGroups.filter fun entry => entry.1 ≠ group.handle) :
    Alive (s.discard self (some group.handle)) := by
  have hhandles : ∀ {handle}, handle ∈ (s.discard self (some group.handle)).handles ↔
      handle ≠ group.handle ∧ handle ∈ s.handles := by
    intro handle
    change handle ∈ self.subGroups.map Prod.fst ↔ _
    rw [hgroups]
    exact mem_handles_filter
  constructor
  case sound => exact h.sound.destroy hstands
  case number_le =>
    intro j handle purpose hj
    rw [History.resources_discard] at hj
    exact h.number_le hj
  case notNull =>
    intro j other hj
    rw [History.group_discard] at hj
    exact h.notNull hj
  case known =>
    intro j other hj hlive
    rw [History.group_discard] at hj
    exact hhandles.mpr (h.known_of_discard hstands hj hlive)
  case keyed =>
    intro handle hhandle
    obtain ⟨hne, hhandle⟩ := hhandles.mp hhandle
    obtain ⟨j, hholder, hlive⟩ := h.keyed hhandle
    refine ⟨j, by rw [History.holder_discard, hholder], fun purpose hj hinit' hnumber => ?_⟩
    rw [History.resources_discard] at hj
    have hji : j ≠ i := by
      intro heq
      subst heq
      exact hne (congrArg Resource.handle (Option.some.inj (hj.symm.trans hstands.resource)))
    exact (Ledger.destroyed_destroy_of_ne hstands hji).trans
      (hlive purpose hj (hinit ▸ hinit') hnumber)
  case worldLive =>
    intro hinit' j handle hj
    rw [History.resources_discard] at hj
    have hji : j ≠ i := by
      intro heq
      subst heq
      cases congrArg Resource.purpose (Option.some.inj (hj.symm.trans hstands.resource))
    exact (Ledger.destroyed_destroy_of_ne hstands hji).trans (h.worldLive (hinit ▸ hinit') hj)
  case world =>
    intro hinit'
    obtain ⟨handle, j, hworld, hstands'⟩ := h.world (hinit ▸ hinit')
    refine ⟨handle, j, hcomm.trans hworld, hstands'.destroy hstands fun heq => ?_⟩
    subst heq
    cases (hstands'.unique hstands).2
  case inPlace =>
    intro hinit'
    obtain ⟨c, handle, j, purpose, hself, hhandle, hstands', hnumber⟩ :=
      h.inPlace (hinit ▸ hinit')
    refine ⟨c, handle, j, purpose, hc.trans hself, hhandle, hstands'.destroy hstands ?_, hnumber⟩
    exact fun heq => hplace ⟨c, hself, hhandle.trans (congrArg some heq)⟩

/-- Without the world: what was in place is gone. -/
theorem Alive.discardWorld (h : Alive s) (hstands : s.ledger.Stands handle i purpose)
    (hinit : self.initialized = false) (hgroups : self.subGroups = s.self.subGroups) :
    Alive (s.discard self (some handle)) := by
  have hhandles : (s.discard self (some handle)).handles = s.handles :=
    congrArg (List.map Prod.fst) hgroups
  apply Alive.of_uninitialised (s := s.discard self (some handle)) hinit (h.sound.destroy hstands)
  · intro j handle purpose hj
    rw [History.resources_discard] at hj
    exact h.number_le hj
  · intro j group hj
    rw [History.group_discard] at hj
    exact h.notNull hj
  · intro j group hj hlive
    rw [History.group_discard] at hj
    rw [hhandles]
    exact (h.known_of_discard hstands hj hlive).2
  · intro handle' hhandle'
    rw [hhandles] at hhandle'
    obtain ⟨j, hholder⟩ := h.holder_of_handle hhandle'
    exact ⟨j, by rw [History.holder_discard, hholder]⟩

/-- What is usable stays usable where another group is destroyed. -/
theorem Alive.usable_discard (h : Alive s) {handle' : Int} {number : Nat} {ranks : List Int}
    (hstands : s.ledger.Stands handle i (.group number ranks)) (husable : s.Usable handle')
    (hne : handle' ≠ handle) : (s.discard self (some handle)).Usable handle' := by
  obtain ⟨j, hholder, hlive, hworld⟩ := husable
  obtain ⟨purpose, hj⟩ := h.sound.held hholder
  have hother : ∀ k r, s.ledger.resources[k]? = some r → r ≠ ⟨handle, .group number ranks⟩ →
      (s.ledger.destroy handle).destroyed k = s.ledger.destroyed k := by
    intro k r hk hr
    apply Ledger.destroyed_destroy_of_ne hstands
    intro heq
    subst heq
    exact hr (Option.some.inj (hk.symm.trans hstands.resource))
  refine ⟨j, by rw [History.holder_discard]; exact hholder, ?_, fun r hr hdestroyed => ?_⟩
  · exact (hother j _ hj fun heq => hne (congrArg Resource.handle heq)).trans hlive
  · rw [History.resources_discard] at hr
    obtain ⟨k, hk, r', hr', hpurpose, hdestroyed⟩ := hdestroyed
    rw [History.resources_discard] at hk hr'
    have hgroup : r' ≠ ⟨handle, .group number ranks⟩ := by
      intro heq
      rw [heq] at hpurpose
      cases hpurpose
    refine hworld r hr ⟨k, hk, r', hr', hpurpose, ?_⟩
    rw [← hother k r' hr' hgroup]
    exact hdestroyed

/-- A usable group stays usable where another group object is destroyed. -/
theorem Alive.groupUsable_discard (h : Alive s) {number : Nat} {ranks : List Int}
    (hstands : s.ledger.Stands handle i (.group number ranks)) (hinit : self.initialized = true)
    (hgroups : self.subGroups = s.self.subGroups.filter fun entry => entry.1 ≠ handle) {j : Nat}
    (hne : j ≠ i) (husable : s.GroupUsable j) :
    (s.discard self (some handle)).GroupUsable j := by
  obtain ⟨_, hlive, group, hgroup, _, hhandle⟩ := husable
  have hlive' : (s.ledger.destroy handle).destroyed j = 0 :=
    (Ledger.destroyed_destroy_of_ne hstands hne).trans hlive
  have hknown := h.known_of_discard hstands hgroup hlive'
  refine ⟨hinit, hlive', group, (History.group_discard j).trans hgroup, ?_, ?_⟩
  · change group.handle ∈ self.subGroups.map Prod.fst
    rw [hgroups]
    exact mem_handles_filter.mpr hknown
  · exact h.usable_discard hstands hhandle hknown.1

/-- A call with a group is given its object. -/
theorem History.Admits.exists_object (hadmits : s.Admits turn) {group : CommGroup}
    (hgroup : turn.call.group = some group) :
    ∃ i, turn.object = some i ∧ s.group i = some group := by
  have hobject := hadmits.object
  rw [hgroup] at hobject
  exact Option.map_eq_some_iff.mp hobject

theorem Alive.ofDestroy (h : Alive s) (hadmits : s.Admits turn) (hpermitted : Permitted s turn)
    {group : Option CommGroup} (hcall : turn.call = .destroyProcessGroup group) :
    Alive (s.discard (after (destroyProcessGroup turn.library group) s.self)
        (destroyedHandle turn.library group s.self)) ∧
      TurnSafe s (s.discard (after (destroyProcessGroup turn.library group) s.self)
        (destroyedHandle turn.library group s.self)) turn := by
  by_cases hinit : s.self.initialized = true
  · have hdestroys : turn.call.Destroys := by
      rw [hcall]
      trivial
    have hgroup : turn.call.group = group := by rw [hcall, Call.group]
    -- a group that is given is an object that has not been destroyed
    have hobject : ∀ g ∈ group, ∃ i number, turn.object = some i ∧ s.group i = some g ∧
        s.ledger.Stands g.handle i (.group number g.ranks) := by
      intro g hg
      obtain ⟨i, hi, hg'⟩ := hadmits.exists_object (hgroup.trans hg)
      obtain ⟨number, hresource⟩ := History.group_eq_some.mp hg'
      have hlive := hpermitted.once hinit hdestroys i hi
      exact ⟨i, number, hi, hg', h.sound.stands_of_live hresource hlive⟩
    have hnull : ∀ g ∈ group, g.handle ≠ 0 := by
      intro g hg
      obtain ⟨_, _, _, hg', _⟩ := hobject g hg
      exact h.notNull hg'
    obtain ⟨c, handle, i, purpose, hc, hcomm, hstands, hnumber⟩ := h.inPlace hinit
    have hends := @destroyProcessGroup_ends turn.library _ _ _ hinit hc hnull
    generalize destroyedHandle turn.library group s.self = destroyed at hends ⊢
    generalize after (destroyProcessGroup turn.library group) s.self = self at hends ⊢
    cases hends with
    | raised =>
        refine ⟨h, ⟨[], (List.append_nil _).symm, fun _ h => nomatch h⟩, fun _ _ _ _ => ?_⟩
        exact ⟨h.worldUsable hinit, fun _ _ husable => husable⟩
    | @group g hg hknown =>
        obtain ⟨i, number, hi, _, hstands⟩ := hobject g hg
        have hplace := hpermitted.notSwitched hinit hdestroys g (hgroup.trans hg)
        have halive : Alive (s.discard
            { s.self with
              subGroups := s.self.subGroups.filter fun entry => entry.1 ≠ g.handle }
            (some g.handle)) :=
          h.discardGroup hstands hplace rfl rfl rfl rfl
        refine ⟨halive, ⟨[], (List.append_nil _).symm, fun _ h => nomatch h⟩, ?_⟩
        intro _ _ i' hi'
        obtain rfl := Option.some.inj (hi.symm.trans hi')
        refine ⟨halive.worldUsable hinit, fun j hne husable => ?_⟩
        apply h.groupUsable_discard hstands _ _ hne husable
        · exact hinit
        · rfl
    | world hunknown =>
        rw [hcomm]
        refine ⟨h.discardWorld hstands rfl rfl,
          ⟨[], (List.append_nil _).symm, fun _ h => nomatch h⟩, fun _ _ i hi => ?_⟩
        -- an object that is given is known
        have hobject' := hadmits.object
        rw [hi, hgroup, Option.map_some] at hobject'
        obtain ⟨g, hg, _⟩ := Option.map_eq_some_iff.mp hobject'.symm
        obtain ⟨_, _, _, hg', hstands'⟩ := hobject g hg
        exact absurd (h.known hg' hstands'.destroyed) (hunknown g hg)
  · obtain ⟨hhandle, hself⟩ := @destroy_uninitialised turn.library _ group hinit
    rw [hhandle, hself]
    exact ⟨h, ⟨[], (List.append_nil _).symm, fun _ h => nomatch h⟩,
      fun hinit' => absurd hinit' hinit⟩

end Discard

theorem after_discard {c : Method (Option CommGroup)} (self : Instance) :
    after (discard c) self = after c self := by
  simp only [after, discard, Functor.discard, Functor.mapConst, EStateM.map, Function.comp]
  cases c self <;> rfl

/-- A call that raises returns no group. -/
theorem returned_of_error {library : Library} {ranks : List Int} {self t : Instance}
    {e : BackendError} (h : perform newGroup library (.newGroup ranks) self = .error e t) :
    History.returned (newGroup library ranks) self = none := by
  simp only [perform, discard, Functor.discard, Functor.mapConst, EStateM.map,
    Function.comp] at h
  rw [History.returned]
  cases hrun : newGroup library ranks self with
  | ok group t' =>
      rw [hrun] at h
      cases h
  | error e' t' => rfl

/-- What a `new_group` returns and leaves. -/
theorem CreatesGroups.ends (hnew : CreatesGroups newGroup) (library : Library) (ranks : List Int)
    (self : Instance) :
    NewGroupEnds library self (History.returned (newGroup library ranks) self)
      (after (newGroup library ranks) self) := by
  have hwp := hnew library ranks self
  rw [wp] at hwp
  rw [History.returned, after]
  cases hrun : newGroup library ranks self with
  | ok group t =>
      rw [hrun] at hwp
      exact hwp
  | error e t =>
      rw [hrun] at hwp
      exact hwp

/-- A call that is permitted keeps the invariant, and is safe. -/
theorem Alive.next (hnew : CreatesGroups newGroup) (h : Alive s) (hadmits : s.Admits turn)
    (hpermitted : Permitted s turn) :
    Alive (History.next newGroup s turn) ∧ TurnSafe s (History.next newGroup s turn) turn := by
  cases hcall : turn.call with
  | initProcessGroup rank worldSize =>
      have hends := @initProcessGroup_ends turn.library rank worldSize s.self
      obtain ⟨halive, hissued⟩ := h.ofInit hadmits.worldComm rfl hends
      rw [History.next, hcall]
      refine ⟨halive, .of_issued hissued ?_⟩
      rw [hcall]
      exact id
  | newGroup ranks =>
      have hends := hnew.ends turn.library ranks s.self
      obtain ⟨halive, hissued⟩ := h.ofNewGroup hadmits hends
      rw [History.next, hcall, perform, after_discard]
      refine ⟨halive, .of_issued hissued ?_⟩
      rw [hcall]
      exact id
  | destroyProcessGroup group =>
      rw [History.next, hcall]
      exact h.ofDestroy hadmits hpermitted hcall
  | allReduce | broadcast | barrier | allGatherObject =>
      apply h.collective hpermitted
      rw [hcall]
      trivial

end Calls

/-! ## Runs -/

section Runs

variable {newGroup : Library → List Int → Method (Option CommGroup)} {s : History}

theorem lifecycle_step_iff {turn : Turn} {t : History} :
    (lifecycle newGroup).step s turn = some t ↔
      s.Admits turn ∧ History.next newGroup s turn = t := by
  rw [lifecycle, Option.ite_none_right_eq_some, Option.some.injEq]

/-- In every run of permitted calls no communicator is destroyed twice, and every permitted
call is safe. -/
theorem lifecycle_of_run (hnew : CreatesGroups newGroup)
    (h : (lifecycle newGroup).ReachableBy Permitted s) : LifecycleSafe newGroup Permitted s := by
  have halive : Alive s := by
    apply Machine.ReachableBy.invariant (I := Alive) .start _ h
    intro s turn t halive hpermitted hnext
    obtain ⟨hadmits, rfl⟩ := lifecycle_step_iff.mp hnext
    exact (halive.next hnew hadmits hpermitted).1
  refine ⟨halive.sound.once, fun turn t hpermitted hnext => ?_⟩
  obtain ⟨hadmits, rfl⟩ := lifecycle_step_iff.mp hnext
  exact (halive.next hnew hadmits hpermitted).2

end Runs

/-- Of both backends, in every run of permitted calls: every communicator is destroyed at
most once, destroying a group leaves the world and the other groups usable, and every
collective runs on a communicator that has not been destroyed and whose world has not. -/
theorem lifecycle_safe (s : History) :
    ((lifecycle Nccl.newGroup).ReachableBy Permitted s →
        LifecycleSafe Nccl.newGroup Permitted s) ∧
      ((lifecycle Hccl.newGroup).ReachableBy Permitted s →
        LifecycleSafe Hccl.newGroup Permitted s) :=
  ⟨lifecycle_of_run Nccl.createsGroups, lifecycle_of_run Hccl.createsGroups⟩

/-- A library that does not raise, with these handles for a new world and a new group. -/
def libraryGiving (worldComm newComm : Int) : Library := ⟨fun _ => none, worldComm, some newComm⟩

/-- A group is used and destroyed, and so is the world; another world follows, in which a
group is given the handle of the first. -/
def twoWorlds : List Turn :=
  [⟨libraryGiving 1 7, .initProcessGroup 0 2, none⟩, ⟨libraryGiving 2 7, .newGroup [1, 0], none⟩,
    ⟨libraryGiving 2 8, .allReduce (some ⟨7, [0, 1]⟩), some 1⟩,
    ⟨libraryGiving 2 8, .destroyProcessGroup (some ⟨7, [0, 1]⟩), some 1⟩,
    ⟨libraryGiving 2 8, .destroyProcessGroup none, none⟩,
    ⟨libraryGiving 1 7, .initProcessGroup 0 2, none⟩, ⟨libraryGiving 2 7, .newGroup [1, 0], none⟩,
    ⟨libraryGiving 2 8, .barrier (some ⟨7, [0, 1]⟩), some 3⟩]

/-- The calls are permitted, and safe. -/
theorem lifecycle_safe_twoWorlds :
    (∃ s, (lifecycle Nccl.newGroup).ReachableBy Permitted s ∧ s.worlds = 2 ∧
        LifecycleSafe Nccl.newGroup Permitted s) ∧
      (∃ s, (lifecycle Hccl.newGroup).ReachableBy Permitted s ∧ s.worlds = 2 ∧
        LifecycleSafe Hccl.newGroup Permitted s) := by
  obtain ⟨nccl, hnccl, hncclWorlds⟩ :=
    @Machine.ReachableBy.of_runBy _ _ (lifecycle Nccl.newGroup) Permitted _
      (fun s => s.worlds = 2) _ twoWorlds (by decide +kernel)
  obtain ⟨hccl, hhccl, hhcclWorlds⟩ :=
    @Machine.ReachableBy.of_runBy _ _ (lifecycle Hccl.newGroup) Permitted _
      (fun s => s.worlds = 2) _ twoWorlds (by decide +kernel)
  exact ⟨⟨nccl, hnccl, hncclWorlds, (lifecycle_safe nccl).1 hnccl⟩,
    ⟨hccl, hhccl, hhcclWorlds, (lifecycle_safe hccl).2 hhccl⟩⟩

/-! ## Runs that are not safe -/

section Unsafe

variable {newGroup : Library → List Int → Method (Option CommGroup)} {s : History} {turn : Turn}
  {turns : List Turn}

/-- The calls lead to where not every call is safe, or not every communicator was destroyed at
most once. -/
def Breaks (newGroup : Library → List Int → Method (Option CommGroup)) (turns : List Turn) :
    Prop :=
  ∃ s, (lifecycle newGroup).run (lifecycle newGroup).init turns = some s ∧
    ¬ LifecycleSafe newGroup (fun _ _ => True) s

/-- The call destroys a group object and ends the world. -/
def EndsWorld (newGroup : Library → List Int → Method (Option CommGroup)) (turn : Turn)
    (s : History) : Prop :=
  s.Admits turn ∧ s.self.initialized = true ∧ turn.call.Destroys ∧ turn.object.isSome = true ∧
    (History.next newGroup s turn).self.initialized = false

instance : Decidable (EndsWorld newGroup turn s) := inferInstanceAs (Decidable (_ ∧ _))

theorem EndsWorld.breaks (turn : Turn)
    (h : ((lifecycle newGroup).run (lifecycle newGroup).init turns).any
      (fun s => EndsWorld newGroup turn s) = true) : Breaks newGroup turns := by
  obtain ⟨s, hrun, hadmits, hinit, hdestroys, hobject, hend⟩ := Machine.exists_of_run turns h
  refine ⟨s, hrun, fun hsafe => ?_⟩
  obtain ⟨i, hi⟩ := Option.isSome_iff_exists.mp hobject
  have hturn := hsafe.2 turn _ trivial (lifecycle_step_iff.mpr ⟨hadmits, rfl⟩)
  have hworld := (hturn.others hinit hdestroys i hi).1.1
  exact absurd (hend.symm.trans hworld) Bool.false_ne_true

/-- The call runs a collective on a handle that is not usable. -/
def RunsOn (newGroup : Library → List Int → Method (Option CommGroup)) (turn : Turn)
    (handle : Int) (s : History) : Prop :=
  s.Admits turn ∧ ¬ s.Usable handle ∧ ∃ entry ∈
    (History.next newGroup s turn).self.issued.drop s.self.issued.length,
      entry.2.1 = some handle

instance {handle : Int} : Decidable (RunsOn newGroup turn handle s) :=
  inferInstanceAs (Decidable (_ ∧ _ ∧ _))

theorem RunsOn.breaks (turn : Turn) (handle : Int)
    (h : ((lifecycle newGroup).run (lifecycle newGroup).init turns).any
      (fun s => RunsOn newGroup turn handle s) = true) : Breaks newGroup turns := by
  obtain ⟨s, hrun, hadmits, hunusable, entry, hentry, hhandle⟩ := Machine.exists_of_run turns h
  refine ⟨s, hrun, fun hsafe => ?_⟩
  have hturn := hsafe.2 turn _ trivial (lifecycle_step_iff.mpr ⟨hadmits, rfl⟩)
  obtain ⟨l, hl, husable⟩ := hturn.issued
  rw [hl, List.drop_left] at hentry
  obtain ⟨handle', hhandle', husable⟩ := husable entry hentry
  obtain rfl := Option.some.inj (hhandle.symm.trans hhandle')
  exact hunusable husable

theorem breaks_of_destroyed (i : Nat)
    (h : ((lifecycle newGroup).run (lifecycle newGroup).init turns).any
      (fun s => s.ledger.destroyed i = 2) = true) : Breaks newGroup turns := by
  obtain ⟨s, hrun, hdestroyed⟩ := Machine.exists_of_run turns h
  refine ⟨s, hrun, fun hsafe => ?_⟩
  have honce := hsafe.1 i
  rw [hdestroyed] at honce
  exact absurd honce (Nat.not_succ_le_self 1)

end Unsafe

/-- Rank 0 of two joins a world with this handle. -/
def joins (worldComm : Int) : Turn :=
  ⟨libraryGiving worldComm 8, .initProcessGroup 0 2, none⟩

def makesGroup : Turn := ⟨libraryGiving 2 7, .newGroup [1, 0], none⟩

def destroysGroup : Turn :=
  ⟨libraryGiving 2 8, .destroyProcessGroup (some ⟨7, [0, 1]⟩), some 1⟩

def destroysWorld : Turn := ⟨libraryGiving 2 8, .destroyProcessGroup none, none⟩

/-- A broadcast in the group, from a rank that is not in it. -/
def broadcastsFromStranger : Turn :=
  ⟨libraryGiving 2 8, .broadcast (some 5) (some ⟨7, [0, 1]⟩), some 1⟩

def reducesInGroup : Turn := ⟨libraryGiving 3 8, .allReduce (some ⟨7, [0, 1]⟩), some 1⟩

/-- Once a group is destroyed, destroying it again ends the world; in another world than its
own, a group runs on a communicator whose world was destroyed; and a group that a failed
broadcast has left in place is destroyed a second time with the world. -/
theorem lifecycle_unsafe :
    (Breaks Nccl.newGroup [joins 1, makesGroup, destroysGroup] ∧
        Breaks Nccl.newGroup [joins 1, makesGroup, destroysWorld, joins 2] ∧
        Breaks Nccl.newGroup
          [joins 1, makesGroup, broadcastsFromStranger, destroysGroup, destroysWorld]) ∧
      Breaks Hccl.newGroup [joins 1, makesGroup, destroysGroup] ∧
        Breaks Hccl.newGroup [joins 1, makesGroup, destroysWorld, joins 2] ∧
        Breaks Hccl.newGroup
          [joins 1, makesGroup, broadcastsFromStranger, destroysGroup, destroysWorld] := by
  refine ⟨⟨?_, ?_, ?_⟩, ?_, ?_, ?_⟩
  · exact EndsWorld.breaks destroysGroup (by decide +kernel)
  · exact RunsOn.breaks reducesInGroup 7 (by decide +kernel)
  · exact breaks_of_destroyed 1 (by decide +kernel)
  · exact EndsWorld.breaks destroysGroup (by decide +kernel)
  · exact RunsOn.breaks reducesInGroup 7 (by decide +kernel)
  · exact breaks_of_destroyed 1 (by decide +kernel)

end CheckpointEngine.Distributed
