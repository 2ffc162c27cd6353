/-
  `Distributed.SubcommIds`: the ids with which `DistributedHccl` creates groups.

  Every rank counts its ids on its own, and a rank that is not in a group does not count
  it.  The ranks of one world are followed through the same sequence of `new_group` calls.
-/
import CheckpointEngine.Distributed.World

set_option autoImplicit false

namespace CheckpointEngine.Distributed

open CheckpointEngine.Foundation
open CheckpointEngine.Foundation.Command

/-! ## What is passed to `HcclCreateSubCommConfig` -/

/-- `c_rank_ids`, `subcomm_id` and `subcomm_rank`. -/
structure SubcommArguments where
  ranks : List Int
  subcommId : Nat
  subcommRank : Int
  deriving DecidableEq, Repr

/-- `create_subcomm`, up to its call of `HcclCreateSubCommConfig`. -/
def createSubcommArguments (ranks : List Int) : Method SubcommArguments := do
  let c ← communicator
  let subcommRank ← index ranks c.rank
  return ⟨ranks, c.subcommId, subcommRank⟩

/-- `create_subcomm`, from that call on. -/
def createSubcommRest (library : Library) : Method (Option Int) := do
  attempt (library.raises .createSubComm)
  modify fun self =>
    { self with
      communicator := self.communicator.map fun c => { c with subcommId := c.subcommId + 1 } }
  return library.newComm

/-- `new_group` of `DistributedHccl`, up to the same call, if it comes to it. -/
def Hccl.newGroupArguments (ranks : List Int) : Method (Option SubcommArguments) := do
  requireInitialized
  let ranks := groupRanks (← get).worldSize ranks
  if (← get).rank ∉ ranks then
    return none
  else
    return some (← createSubcommArguments ranks)

/-- `new_group` from there on. -/
def Hccl.newGroupRest (library : Library) :
    Option SubcommArguments → Method (Option CommGroup)
  | none => return none
  | some arguments => do enterSubGroup (← createSubcommRest library) arguments.ranks

/-- What a backend passes in a call of `new_group`. -/
def Hccl.passed (self : Instance) (ranks : List Int) : Option SubcommArguments :=
  match Hccl.newGroupArguments ranks self with
  | .ok arguments _ => arguments
  | .error _ _ => none

theorem createSubcomm_eq (library : Library) (ranks : List Int) :
    createSubcomm library ranks =
      createSubcommArguments ranks >>= fun _ => createSubcommRest library := by
  simp only [createSubcomm, createSubcommArguments, createSubcommRest, bind_assoc, pure_bind]

/-- `new_group` goes on from what it passes. -/
theorem Hccl.newGroup_eq (library : Library) (ranks : List Int) :
    Hccl.newGroup library ranks =
      Hccl.newGroupArguments ranks >>= Hccl.newGroupRest library := by
  simp only [Hccl.newGroup, Hccl.newGroupArguments, createSubcomm_eq, bind_assoc]
  congr; funext _; congr; funext self; congr; funext self'
  split
  · rw [pure_bind, Hccl.newGroupRest]
  · simp only [createSubcommArguments, bind_assoc, pure_bind, Hccl.newGroupRest]

/-- An initialised backend passes the id that its communicator is at. -/
theorem Hccl.passed_subcommId {self : Instance} {ranks : List Int} {arguments : SubcommArguments}
    (h : Hccl.passed self ranks = some arguments) :
    self.initialized = true ∧
      ∃ c, self.communicator = some c ∧ arguments.subcommId = c.subcommId := by
  have hwp : wp (Hccl.newGroupArguments ranks)
      (fun arguments _ => ∀ a ∈ arguments, self.initialized = true ∧
        ∃ c, self.communicator = some c ∧ a.subcommId = c.subcommId) (fun _ _ => True) self := by
    rw [Hccl.newGroupArguments, wp_bind, wp_requireInitialized]
    refine ⟨fun hinit => ?_, fun _ => trivial⟩
    simp only [createSubcommArguments, communicator, index, wp_bind, wp_get, wp_ite, wp_pure]
    refine ⟨fun _ _ h => (by cases h), fun _ => ?_⟩
    split
    · rename_i c hc
      simp only [wp_pure, wp_require, implies_true, and_true]
      intro _ a ha
      obtain rfl := Option.some.inj ha
      exact ⟨hinit, c, hc, rfl⟩
    · trivial
  rw [Hccl.passed] at h
  rw [wp] at hwp
  split at h
  · rename_i heq
    rw [heq] at hwp
    exact hwp arguments h
  · cases h

/-! ## One rank -/

/-- A rank of an initialised world that has created `n` groups there. -/
structure Created (worldSize rank n : Nat) (s : Instance) : Prop where
  initialized : s.initialized = true
  rank_eq : s.rank = rank
  worldSize_eq : s.worldSize = worldSize
  communicator_eq : ∃ c, s.communicator = some c ∧ c.rank = rank ∧ c.subcommId = n + 1

section Rank

variable {worldSize rank n : Nat} {s : Instance} {library : Library} {ranks : List Int}

/-- A rank starts without groups. -/
theorem initProcessGroup_created (s : Instance) :
    wp (initProcessGroup library rank worldSize) (fun _ => Created worldSize rank 0)
      (fun _ _ => True) s := by
  simp only [initProcessGroup, communicator, wp_bind, wp_get, wp_require, wp_modify, wp_attempt,
    wp_pure, implies_true, and_true]
  intros
  exact ⟨rfl, rfl, rfl, _, rfl, rfl, rfl⟩

/-- The arguments of a member, and none of another rank. -/
def argumentsOf (worldSize rank n : Nat) (ranks : List Int) : Option SubcommArguments :=
  if (rank : Int) ∈ groupRanks worldSize ranks then
    some ⟨groupRanks worldSize ranks, n + 1,
      ((groupRanks worldSize ranks).idxOf (rank : Int) : Nat)⟩
  else none

/-- A member passes the sorted ranks with the number after that of its groups. -/
theorem Created.wp_newGroupArguments (h : Created worldSize rank n s) :
    wp (Hccl.newGroupArguments ranks)
      (fun arguments t => arguments = argumentsOf worldSize rank n ranks ∧ t = s)
      (fun _ _ => False) s := by
  obtain ⟨c, hc, hrank, hid⟩ := h.communicator_eq
  rw [Hccl.newGroupArguments, wp_bind, wp_requireInitialized]
  refine ⟨fun _ => ?_, fun hnot => hnot h.initialized⟩
  rw [argumentsOf, wp_bind, wp_get, wp_bind, wp_get, h.rank_eq, h.worldSize_eq, wp_ite]
  constructor
  · intro hnot
    exact ⟨(if_neg hnot).symm, rfl⟩
  · intro hmem
    have hmem : (rank : Int) ∈ groupRanks worldSize ranks := not_not.mp hmem
    have hown : c.rank ∈ groupRanks worldSize ranks := hrank ▸ hmem
    simp only [createSubcommArguments, communicator, index, wp_bind, wp_get, hc, wp_pure,
      wp_require_of hown, if_pos hmem, hid, hrank, and_self]

theorem Created.passed_eq (h : Created worldSize rank n s) :
    Hccl.passed s ranks = argumentsOf worldSize rank n ranks := by
  obtain ⟨_, _, harguments, hpassed, _⟩ :=
    wp_returns_iff.mp (@Created.wp_newGroupArguments _ _ _ _ ranks h)
  rw [Hccl.passed, harguments]
  exact hpassed

/-- The rank creates a group in the call. -/
def Creates (worldSize rank : Nat) (library : Library) (ranks : List Int) : Prop :=
  (rank : Int) ∈ groupRanks worldSize ranks ∧ library.raises .createSubComm = none

instance (worldSize rank : Nat) (library : Library) (ranks : List Int) :
    Decidable (Creates worldSize rank library ranks) := inferInstanceAs (Decidable (_ ∧ _))

theorem enterSubGroup_created {newcomm : Option Int} (h : Created worldSize rank n s) :
    Keeps (enterSubGroup newcomm ranks) (Created worldSize rank n) s := by
  cases newcomm with
  | none => exact h
  | some handle => exact ⟨h.initialized, h.rank_eq, h.worldSize_eq, h.communicator_eq⟩

/-- A call of `new_group` counts the group that it creates. -/
theorem Created.newGroup (h : Created worldSize rank n s) :
    Created worldSize rank (if Creates worldSize rank library ranks then n + 1 else n)
      (after (Hccl.newGroup library ranks) s) := by
  apply keeps_iff.mp
  rw [Keeps, Hccl.newGroup_eq, wp_bind]
  apply wp_mono h.wp_newGroupArguments
  · rintro _ _ ⟨rfl, rfl⟩
    rw [argumentsOf]
    split
    · rename_i hmem
      rw [Hccl.newGroupRest, createSubcommRest, wp_bind, wp_bind, wp_attempt]
      constructor
      · intro hnone
        rw [if_pos ⟨hmem, hnone⟩]
        obtain ⟨c, hc, hrank, hid⟩ := h.communicator_eq
        apply enterSubGroup_created
        exact ⟨h.initialized, h.rank_eq, h.worldSize_eq, { c with subcommId := c.subcommId + 1 },
          by simp only [hc, Option.map_some], hrank, congrArg Nat.succ hid⟩
      · intro e he
        rw [if_neg fun hcreates => by rw [hcreates.2] at he; cases he]
        exact h
    · rename_i hnot
      rw [if_neg fun hcreates => hnot hcreates.1]
      exact h
  · exact fun _ _ hfalse => hfalse.elim

end Rank

/-! ## Sequences of calls -/

/-- A call of `new_group` by all ranks.  Each has the same ranks in a list of its own, in an
order of its own. -/
structure GroupCall where
  ranks : List Int
  order : Nat → List Int
  perm : ∀ rank, (order rank).Perm ranks
  library : Nat → Library

/-- The ranks as every rank has them once it has sorted them. -/
def GroupCall.members (call : GroupCall) (worldSize : Nat) : List Int :=
  groupRanks worldSize call.ranks

/-- A rank after some calls. -/
def afterCalls (start : Nat → Instance) (calls : List GroupCall) (rank : Nat) : Instance :=
  calls.foldl (fun s call => after (Hccl.newGroup (call.library rank) (call.order rank)) s)
    (start rank)

/-- What a rank passes in the call at a place of the sequence. -/
def passedAt (start : Nat → Instance) (calls : List GroupCall) (i rank : Nat) :
    Option SubcommArguments :=
  calls[i]?.bind fun call => Hccl.passed (afterCalls start (calls.take i) rank) (call.order rank)

/-- In each call all members pass one id with one list of ranks, and no two calls that share
a member have an id in common. -/
structure IdsAgree (worldSize : Nat) (start : Nat → Instance) (calls : List GroupCall) :
    Prop where
  same : ∀ i call, calls[i]? = some call →
    ∃ subcommId, ∀ rank < worldSize, (rank : Int) ∈ call.members worldSize →
      ∃ arguments, passedAt start calls i rank = some arguments ∧
        arguments.subcommId = subcommId ∧ arguments.ranks = call.members worldSize
  distinct : ∀ i j call call', i < j → calls[i]? = some call → calls[j]? = some call' →
    (∃ rank < worldSize, (rank : Int) ∈ call.members worldSize ∧
      (rank : Int) ∈ call'.members worldSize) →
    ∀ rank < worldSize, ∀ rank' < worldSize, ∀ arguments arguments',
      passedAt start calls i rank = some arguments →
      passedAt start calls j rank' = some arguments' →
      arguments.subcommId ≠ arguments'.subcommId

/-- The groups that a rank creates in some calls: those it is in, unless the library raises
for it. -/
def completed (worldSize rank : Nat) (calls : List GroupCall) : Nat :=
  calls.countP fun call => Creates worldSize rank (call.library rank) call.ranks

/-- The members of each call have created equally many groups before it, and a rank for which
the library has raised is in no later group. -/
structure Balanced (worldSize : Nat) (calls : List GroupCall) : Prop where
  equal : ∀ i call, calls[i]? = some call →
    ∀ rank < worldSize, ∀ rank' < worldSize, (rank : Int) ∈ call.members worldSize →
      (rank' : Int) ∈ call.members worldSize →
      completed worldSize rank (calls.take i) = completed worldSize rank' (calls.take i)
  created : ∀ (i j : Nat) (call call' : GroupCall), i < j → calls[i]? = some call →
    calls[j]? = some call' →
    ∀ rank < worldSize, (rank : Int) ∈ call.members worldSize →
      (rank : Int) ∈ call'.members worldSize → (call.library rank).raises .createSubComm = none

section Calls

variable {worldSize rank i : Nat} {start : Nat → Instance} {calls : List GroupCall}
  {call : GroupCall}

theorem groupRanks_perm {ranks ranks' : List Int} (h : ranks.Perm ranks') :
    groupRanks worldSize ranks = groupRanks worldSize ranks' := by
  by_cases hnil : ranks = []
  · subst hnil
    rw [h.nil_eq]
  · have hnil' : ranks' ≠ [] := fun hnil' => hnil (by rw [hnil'] at h; exact h.eq_nil)
    have hsorted : (ranks.insertionSort (· ≤ ·)).Perm (ranks'.insertionSort (· ≤ ·)) :=
      (List.perm_insertionSort _ _).trans (h.trans (List.perm_insertionSort _ _).symm)
    rw [groupRanks, groupRanks, if_neg hnil, if_neg hnil']
    exact hsorted.eq_of_pairwise' (List.pairwise_insertionSort _ _)
      (List.pairwise_insertionSort _ _)

theorem completed_cons :
    completed worldSize rank (call :: calls) = completed worldSize rank calls +
      if Creates worldSize rank (call.library rank) call.ranks then 1 else 0 := by
  simp only [completed, List.countP_cons, decide_eq_true_eq]

theorem completed_take_succ (h : calls[i]? = some call) :
    completed worldSize rank (calls.take (i + 1)) = completed worldSize rank (calls.take i) +
      if Creates worldSize rank (call.library rank) call.ranks then 1 else 0 := by
  have hone := @completed_cons worldSize rank [] call
  rw [completed] at hone
  rw [completed, List.take_add_one, h, List.countP_append, Option.toList_some, hone]
  exact congrArg _ (Nat.zero_add _)

theorem completed_mono {j : Nat} (h : i ≤ j) :
    completed worldSize rank (calls.take i) ≤ completed worldSize rank (calls.take j) :=
  (List.take_sublist_take_left h).countP_le

/-- Some calls count the groups that the rank creates in them. -/
theorem Created.foldl {n : Nat} {s : Instance} (h : Created worldSize rank n s) :
    Created worldSize rank (n + completed worldSize rank calls)
      (calls.foldl
        (fun s call => after (Hccl.newGroup (call.library rank) (call.order rank)) s) s) := by
  induction calls generalizing n s with
  | nil => exact h
  | cons call calls ih =>
      have hcall := @Created.newGroup _ _ _ _ (call.library rank) (call.order rank) h
      have hcount : n + completed worldSize rank (call :: calls) =
          (if Creates worldSize rank (call.library rank) (call.order rank) then n + 1 else n) +
            completed worldSize rank calls := by
        have horder : Creates worldSize rank (call.library rank) (call.order rank) ↔
            Creates worldSize rank (call.library rank) call.ranks := by
          simp only [Creates, groupRanks_perm (call.perm rank)]
        rw [completed_cons]
        by_cases hcreates : Creates worldSize rank (call.library rank) call.ranks
        · rw [if_pos hcreates, if_pos (horder.mpr hcreates)]
          omega
        · rw [if_neg hcreates, if_neg (mt horder.mp hcreates)]
          rfl
      rw [List.foldl_cons, hcount]
      exact ih hcall

/-- What a rank passes, from the groups it has created. -/
theorem passedAt_eq (hstart : Created worldSize rank 0 (start rank))
    (h : calls[i]? = some call) :
    passedAt start calls i rank =
      argumentsOf worldSize rank (completed worldSize rank (calls.take i)) call.ranks := by
  have hcreated := @Created.foldl _ _ (calls.take i) _ _ hstart
  rw [Nat.zero_add] at hcreated
  rw [passedAt, h, Option.bind_some, afterCalls, hcreated.passed_eq, argumentsOf, argumentsOf,
    groupRanks_perm (call.perm rank)]

/-- A member passes the number after that of its groups. -/
theorem passedAt_of_mem (hstart : Created worldSize rank 0 (start rank))
    (h : calls[i]? = some call) (hmem : (rank : Int) ∈ call.members worldSize) :
    passedAt start calls i rank = some ⟨call.members worldSize,
      completed worldSize rank (calls.take i) + 1,
      ((call.members worldSize).idxOf (rank : Int) : Nat)⟩ := by
  rw [passedAt_eq hstart h]
  exact if_pos hmem

/-- What passes something is a member. -/
theorem mem_of_passedAt (hstart : Created worldSize rank 0 (start rank))
    (h : calls[i]? = some call) {arguments : SubcommArguments}
    (hpassed : passedAt start calls i rank = some arguments) :
    (rank : Int) ∈ call.members worldSize := by
  rw [passedAt_eq hstart h, argumentsOf] at hpassed
  split at hpassed
  · assumption
  · cases hpassed

end Calls

/-! ## When the ids agree -/

section Agreement

variable {worldSize : Nat} {start : Nat → Instance} {calls : List GroupCall}

/-- Calls in which the rank creates no group count nothing. -/
theorem completed_eq_of_not_creates {rank i j : Nat} (hij : i ≤ j)
    (h : ∀ k call, i ≤ k → k < j → calls[k]? = some call →
      ¬Creates worldSize rank (call.library rank) call.ranks) :
    completed worldSize rank (calls.take j) = completed worldSize rank (calls.take i) := by
  induction j, hij using Nat.le_induction with
  | base => rfl
  | succ j hij ih =>
      have hprevious := ih fun k call hik hkj => h k call hik (Nat.lt_succ_of_lt hkj)
      cases hcall : calls[j]? with
      | none => rw [List.take_add_one, hcall, Option.toList_none, List.append_nil, hprevious]
      | some call =>
          rw [completed_take_succ hcall, if_neg (h j call hij (Nat.lt_succ_self j) hcall),
            Nat.add_zero, hprevious]

variable (hstart : ∀ rank < worldSize, Created worldSize rank 0 (start rank))

include hstart

/-- Where the members of each call pass one id, they have created equally many groups. -/
theorem IdsAgree.equal (h : IdsAgree worldSize start calls) {i : Nat} {call : GroupCall}
    (hcall : calls[i]? = some call) {rank rank' : Nat} (hrank : rank < worldSize)
    (hrank' : rank' < worldSize) (hmem : (rank : Int) ∈ call.members worldSize)
    (hmem' : (rank' : Int) ∈ call.members worldSize) :
    completed worldSize rank (calls.take i) = completed worldSize rank' (calls.take i) := by
  obtain ⟨subcommId, hsame⟩ := h.same i call hcall
  obtain ⟨arguments, hpassed, hid, _⟩ := hsame rank hrank hmem
  obtain ⟨arguments', hpassed', hid', _⟩ := hsame rank' hrank' hmem'
  rw [passedAt_of_mem (hstart rank hrank) hcall hmem] at hpassed
  rw [passedAt_of_mem (hstart rank' hrank') hcall hmem'] at hpassed'
  obtain rfl := Option.some.inj hpassed
  obtain rfl := Option.some.inj hpassed'
  exact Nat.succ_inj.mp (hid.trans hid'.symm)

/-- Where no two calls of a rank have one id, the rank is in no group after one that was not
created. -/
theorem IdsAgree.created (h : IdsAgree worldSize start calls) {i j : Nat}
    {call call' : GroupCall} (hij : i < j) (hcall : calls[i]? = some call)
    (hcall' : calls[j]? = some call') {rank : Nat} (hrank : rank < worldSize)
    (hmem : (rank : Int) ∈ call.members worldSize)
    (hmem' : (rank : Int) ∈ call'.members worldSize) :
    (call.library rank).raises .createSubComm = none := by
  classical
  by_contra hraises
  -- the first call after the failed one that has the rank as a member
  have hlater : ∃ k, i < k ∧ ∃ next, calls[k]? = some next ∧
      (rank : Int) ∈ next.members worldSize := ⟨j, hij, call', hcall', hmem'⟩
  obtain ⟨hik, next, hnext, hmemNext⟩ := Nat.find_spec hlater
  have hcount : completed worldSize rank (calls.take (Nat.find hlater)) =
      completed worldSize rank (calls.take i) := by
    apply completed_eq_of_not_creates (Nat.le_of_lt hik)
    intro k other hik' hk hother hcreates
    obtain heq | hlt := Nat.eq_or_lt_of_le hik'
    · subst heq
      obtain rfl := Option.some.inj (hother.symm.trans hcall)
      exact hraises hcreates.2
    · exact Nat.find_min hlater hk ⟨hlt, other, hother, hcreates.1⟩
  exact h.distinct i _ call next hik hcall hnext ⟨rank, hrank, hmem, hmemNext⟩ rank hrank rank
    hrank _ _ (passedAt_of_mem (hstart rank hrank) hcall hmem)
    (passedAt_of_mem (hstart rank hrank) hnext hmemNext) (congrArg Nat.succ hcount.symm)

theorem Balanced.same (h : Balanced worldSize calls) {i : Nat} {call : GroupCall}
    (hcall : calls[i]? = some call) :
    ∃ subcommId, ∀ rank < worldSize, (rank : Int) ∈ call.members worldSize →
      ∃ arguments, passedAt start calls i rank = some arguments ∧
        arguments.subcommId = subcommId ∧ arguments.ranks = call.members worldSize := by
  by_cases hany : ∃ rank < worldSize, (rank : Int) ∈ call.members worldSize
  · obtain ⟨rank, hrank, hmem⟩ := hany
    refine ⟨completed worldSize rank (calls.take i) + 1, fun rank' hrank' hmem' => ?_⟩
    refine ⟨_, passedAt_of_mem (hstart rank' hrank') hcall hmem', ?_, rfl⟩
    exact congrArg Nat.succ (h.equal i call hcall rank' hrank' rank hrank hmem' hmem)
  · exact ⟨0, fun rank hrank hmem => absurd ⟨rank, hrank, hmem⟩ hany⟩

/-- Between two groups of one rank the rank has counted the first. -/
theorem Balanced.distinct (h : Balanced worldSize calls) {i j : Nat} {call call' : GroupCall}
    (hij : i < j) (hcall : calls[i]? = some call) (hcall' : calls[j]? = some call')
    {shared rank rank' : Nat} (hshared : shared < worldSize) (hrank : rank < worldSize)
    (hrank' : rank' < worldSize) (hmemShared : (shared : Int) ∈ call.members worldSize)
    (hmemShared' : (shared : Int) ∈ call'.members worldSize)
    {arguments arguments' : SubcommArguments}
    (hpassed : passedAt start calls i rank = some arguments)
    (hpassed' : passedAt start calls j rank' = some arguments') :
    arguments.subcommId ≠ arguments'.subcommId := by
  have hmem := mem_of_passedAt (hstart rank hrank) hcall hpassed
  have hmem' := mem_of_passedAt (hstart rank' hrank') hcall' hpassed'
  rw [passedAt_of_mem (hstart rank hrank) hcall hmem] at hpassed
  rw [passedAt_of_mem (hstart rank' hrank') hcall' hmem'] at hpassed'
  obtain rfl := Option.some.inj hpassed
  obtain rfl := Option.some.inj hpassed'
  have hraises := h.created i j call call' hij hcall hcall' shared hshared hmemShared hmemShared'
  have hcreates : Creates worldSize shared (call.library shared) call.ranks :=
    ⟨hmemShared, hraises⟩
  have hlt : completed worldSize rank (calls.take i) < completed worldSize rank' (calls.take j) :=
    calc completed worldSize rank (calls.take i)
        = completed worldSize shared (calls.take i) :=
          h.equal i call hcall rank hrank shared hshared hmem hmemShared
      _ < completed worldSize shared (calls.take (i + 1)) := by
          rw [completed_take_succ hcall, if_pos hcreates]
          exact Nat.lt_succ_self _
      _ ≤ completed worldSize shared (calls.take j) := completed_mono hij
      _ = completed worldSize rank' (calls.take j) :=
          h.equal j call' hcall' shared hshared rank' hrank' hmemShared' hmem'
  exact fun heq => Nat.ne_of_lt hlt (Nat.succ_inj.mp heq)

end Agreement

/-- For every sequence of calls of `new_group` that all ranks of a world make: in each call
all members pass one id with one list of ranks, and calls that share a member have different
ids, if and only if the members of each call have created equally many groups before it and
no rank is in a group after one that the library has refused it. -/
theorem idsAgree_iff {worldSize : Nat} {start : Nat → Instance}
    (hstart : ∀ rank < worldSize, Created worldSize rank 0 (start rank))
    (calls : List GroupCall) : IdsAgree worldSize start calls ↔ Balanced worldSize calls := by
  constructor
  · intro h
    constructor
    · intro i call hcall rank hrank rank' hrank'
      exact h.equal hstart hcall hrank hrank'
    · intro i j call call' hij hcall hcall' rank hrank
      exact h.created hstart hij hcall hcall' hrank
  · intro h
    constructor
    · exact fun i call hcall => h.same hstart hcall
    · intro i j call call' hij hcall hcall' hmember rank hrank rank' hrank' _ _
      obtain ⟨shared, hshared, hmem, hmem'⟩ := hmember
      exact h.distinct hstart hij hcall hcall' hshared hrank hrank' hmem hmem'

/-- A call in which every rank has the list as it stands. -/
def callOf (ranks : List Int) : GroupCall :=
  ⟨ranks, fun _ => ranks, fun _ => .refl _, fun _ => libraryRaising []⟩

/-- The ranks of a world, as they have joined it. -/
def joined (worldSize : Nat) (rank : Nat) : Instance :=
  after (initProcessGroup (libraryRaising []) rank worldSize) .new

theorem joined_created (worldSize rank : Nat) :
    Created worldSize rank 0 (joined worldSize rank) :=
  @initProcessGroup_created worldSize rank (libraryRaising []) .new

/-- Two disjoint pairs, and then all four ranks. -/
def pairsThenAll : List GroupCall := [callOf [1, 0], callOf [2, 3], callOf []]

theorem balanced_pairsThenAll : Balanced 4 pairsThenAll := by
  constructor
  · intro i call hcall rank hrank rank' hrank' hmem hmem'
    -- each rank is in the last group with one group, and in its pair with none
    have hcount : ∀ rank : Nat, rank < 4 → (rank : Int) ∈ call.members 4 →
        completed 4 rank (pairsThenAll.take i) = i - 1 := by
      match i with
      | 0 | 1 | 2 =>
          obtain rfl := Option.some.inj hcall
          decide
      | i + 3 => cases hcall
    rw [hcount rank hrank hmem, hcount rank' hrank' hmem']
  · intro i _ call _ _ hcall _ _ _ _ _
    match i with
    | 0 | 1 | 2 =>
        obtain rfl := Option.some.inj hcall
        rfl
    | i + 3 => cases hcall

theorem idsAgree_pairsThenAll : IdsAgree 4 (joined 4) pairsThenAll :=
  (idsAgree_iff (fun rank _ => joined_created 4 rank) pairsThenAll).mpr balanced_pairsThenAll

/-- Rank 0 is in a group with rank 1, and then in one with rank 2. -/
theorem ids_disagree : ¬ IdsAgree 3 (joined 3) [callOf [0, 1], callOf [0, 2]] := by
  intro h
  obtain ⟨subcommId, hsame⟩ := h.same 1 (callOf [0, 2]) rfl
  obtain ⟨arguments, hpassed, hid, _⟩ := hsame 0 (by decide) (by decide)
  obtain ⟨arguments', hpassed', hid', _⟩ := hsame 2 (by decide) (by decide)
  have hfirst : passedAt (joined 3) [callOf [0, 1], callOf [0, 2]] 1 0 =
      some ⟨[0, 2], 2, 0⟩ := by decide +kernel
  have hsecond : passedAt (joined 3) [callOf [0, 1], callOf [0, 2]] 1 2 =
      some ⟨[0, 2], 1, 1⟩ := by decide +kernel
  obtain rfl := Option.some.inj (hpassed.symm.trans hfirst)
  obtain rfl := Option.some.inj (hpassed'.symm.trans hsecond)
  exact absurd (hid.trans hid'.symm) (by decide)

end CheckpointEngine.Distributed
