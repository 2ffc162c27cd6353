/-
  `Server.Rendezvous`: the stores in which the ranks meet to initialise a world.

  Every rank numbers its stores on its own, and the ranks of a world meet only where they have
  come to the same number.  They make the same calls of their servers in the same order, but
  each call may raise on some ranks and in different places.
-/
import CheckpointEngine.Server.GroupSafety

set_option autoImplicit false

namespace CheckpointEngine.Server

open CheckpointEngine.Foundation
open CheckpointEngine.Foundation.Command
open CheckpointEngine.Distributed
open CheckpointEngine.Update (Planned bucketsByReceiverRank)

/-- The number of stores asked for, and those that were given to the backend. -/
def Process.numbers (p : Process) : Nat × List String := (p.storeCounter, p.stores)

/-! ## Only `init_process_group` numbers stores -/

section Numbers

variable {newGroup : Library → List Int → Method (Option CommGroup)} {env : Environment}
  {server : ParameterServer} {object : Option GroupObject} {u : UpdateCall}
  {raises : Place → Option PyError}

theorem dist_numbers {call : Distributed.Call} :
    Preserves Process.numbers (dist newGroup env call object) :=
  fun _ => keeps_dist.mpr rfl

theorem outside_numbers {place : Place} :
    Preserves Process.numbers (outside raises place) :=
  preserves_attempt

theorem distNewGroup_numbers {ranks : List Rank} :
    Preserves Process.numbers (distNewGroup newGroup env ranks) := by
  apply preserves_bind preserves_get
  intro _
  exact preserves_bind dist_numbers fun _ => preserves_pure

theorem chooseMode_numbers :
    Preserves Process.numbers (chooseMode newGroup env server u object) := by
  apply preserves_bind preserves_require
  intro _
  apply preserves_bind (preserves_bind preserves_get fun _ => preserves_pure)
  intro _
  apply preserves_bind preserves_require
  intro _
  apply preserves_bind preserves_require
  intro _
  apply preserves_ite preserves_pure
  apply preserves_bind preserves_require
  intro _
  apply preserves_bind preserves_require
  intro _
  exact preserves_ite (preserves_bind dist_numbers fun _ => preserves_pure) preserves_pure

theorem plan_numbers : Preserves Process.numbers (plan newGroup env u object) := by
  apply preserves_bind outside_numbers
  intro _
  apply preserves_bind dist_numbers
  intro _
  apply preserves_bind outside_numbers
  intro _
  apply preserves_bind (fun _ => keeps_ofExcept rfl)
  intro detected
  refine preserves_bind ?_ fun _ => preserves_pure
  rw [planned]
  split
  · exact preserves_pure
  · exact preserves_pure
  · exact preserves_throw

theorem acquire_numbers {p2pUpdate disableH2dBuffer : Bool} :
    Preserves Process.numbers (acquire u p2pUpdate disableH2dBuffer) := by
  intro p
  simp [acquire, outside, Keeps, Process.numbers]

theorem turnStep_numbers {p2pUpdate disableH2dBuffer : Bool} {buckets : List Planned} {i : Nat}
    {receiver : Rank} {bucket : H2DBucket} :
    Preserves Process.numbers (turnStep newGroup env server u object p2pUpdate disableH2dBuffer
      buckets i receiver bucket) := by
  apply preserves_bind preserves_get
  intro _
  apply preserves_bind outside_numbers
  intro _
  apply preserves_bind (fun p => by simp [fillBuffer, outside, assertion, Keeps])
  intro _
  apply preserves_bind dist_numbers
  intro _
  apply preserves_bind (fun p => by simp [recvReply, outside, Keeps, Process.numbers])
  intro _
  apply preserves_bind dist_numbers
  exact fun _ p => by simp [answerWorker, outside, Keeps, Process.numbers]

theorem exchangeBuckets_numbers {p2pUpdate disableH2dBuffer : Bool} {buckets : List Planned} :
    Preserves Process.numbers
      (exchangeBuckets newGroup env server u object p2pUpdate disableH2dBuffer buckets) := by
  apply preserves_bind (preserves_forM fun i => ?_)
  · exact fun _ p => by simp [outside, Keeps]
  · apply preserves_bind (preserves_ite outside_numbers preserves_pure)
    refine fun _ => preserves_forM fun entry => ?_
    obtain ⟨receiver, own⟩ := entry
    cases hown : own[i]? with
    | none =>
        simp only [hown]
        exact preserves_pure
    | some bucket =>
        simp only [hown]
        exact turnStep_numbers

theorem updatePerBucket_numbers :
    Preserves Process.numbers (updatePerBucket newGroup env server u object) := by
  apply preserves_bind chooseMode_numbers
  intro mode
  cases mode with
  | none => exact preserves_pure
  | some p2pUpdate =>
      apply preserves_bind plan_numbers
      intro out
      apply preserves_bind acquire_numbers
      intro _
      apply preserves_tryFinally exchangeBuckets_numbers
      apply preserves_bind dist_numbers
      exact fun _ p => by simp [outside, Keeps]

theorem updateWith_numbers :
    Preserves Process.numbers (updateWith newGroup env server u object) := by
  apply preserves_bind outside_numbers
  intro _
  apply preserves_bind (preserves_tryFinally updatePerBucket_numbers outside_numbers)
  exact fun _ => outside_numbers

theorem updateFinally_numbers :
    Preserves Process.numbers (updateFinally newGroup env server u object) := by
  have hrest : Preserves Process.numbers (do
      let initialized ← distIsInitialized
      if server.autoPg = true ∧ initialized = true then
        dist newGroup env (.destroyProcessGroup none) none
      outside u.raises .emptyCache) := by
    apply preserves_bind (preserves_bind preserves_get fun _ => preserves_pure)
    refine fun _ => preserves_ite (preserves_bind dist_numbers fun _ => ?_) outside_numbers
    exact outside_numbers
  cases object with
  | none => exact hrest
  | some o => exact preserves_bind dist_numbers fun _ => hrest

end Numbers

/-! ## One call on one rank -/

/-- The rank where it asks the backend for a world. -/
def Process.meeting (p : Process) : Process :=
  { p with
    storeCounter := p.storeCounter + 1
    stores := p.stores ++ [storeName (p.storeCounter + 1)] }

/-- The rank would initialise a world now. -/
def Meets (env : Environment) (raises : Place → Option PyError) (p : Process) : Prop :=
  raises .makeStore = none ∧ ∀ site ∈ initSites, (env.library p.meeting).raises site = none

instance (env : Environment) (raises : Place → Option PyError) (p : Process) :
    Decidable (Meets env raises p) := inferInstanceAs (Decidable (_ ∧ _))

/-- What raises outside of `dist`. -/
def Operation.raises : Operation → Place → Option PyError
  | .initProcessGroup raises | .gatherMetas raises => raises
  | .update u => u.raises
  | .barrier | .destroyProcessGroup => fun _ => none

/-- The call asks for a world. -/
def Operation.Asks (server : ParameterServer) (p : Process) : Operation → Prop
  | .initProcessGroup _ => True
  | .gatherMetas _ => server.autoPg = true ∧ p.history.self.initialized = false
  | .update u =>
      u.hasReqFunc = true ∧ server.autoPg = true ∧ p.history.self.initialized = false
  | .barrier | .destroyProcessGroup => False

/-- A world is up behind the call, where the server manages its worlds. -/
def Operation.WorldUp (env : Environment) (p : Process) : Operation → Prop
  | .initProcessGroup raises | .gatherMetas raises =>
      p.history.self.initialized = true ∨ Meets env raises p
  | .update u => u.hasReqFunc = false ∧ p.history.self.initialized = true
  | .barrier => p.history.self.initialized = true
  | .destroyProcessGroup => False

/-- The numbers behind a call that asks for a world. -/
def asked (raises : Place → Option PyError) (numbers : Nat × List String) : Nat × List String :=
  (numbers.1 + 1,
    if raises .makeStore = none then numbers.2 ++ [storeName (numbers.1 + 1)] else numbers.2)

section Effect

variable {newGroup : Library → List Int → Method (Option CommGroup)} {env : Environment}
  {server : ParameterServer} {p : Process} {u : UpdateCall} {raises : Place → Option PyError}

/-- The number is taken first, so it counts also where no world comes up. -/
theorem initProcessGroup_effect :
    Keeps (initProcessGroup newGroup env server raises)
      (fun t => t.numbers = asked raises p.numbers ∧
        (t.history.self.initialized = true ↔
          p.history.self.initialized = true ∨ Meets env raises p)) p := by
  simp only [initProcessGroup, outside, Keeps, wp_bind, wp_modify]
  cases hstore : raises .makeStore with
  | some e =>
      have hnot : ¬ Meets env raises p := fun hmeets => by rw [hmeets.1] at hstore; cases hstore
      simp [attempt, asked, Process.numbers, hstore, hnot]
  | none =>
      simp only [attempt, Option.map_none, wp_pure]
      apply keeps_dist.mpr
      refine ⟨by simp [asked, hstore, Process.numbers, Process.called], ?_⟩
      rw [Process.called, History.next_self]
      apply (@initProcessGroup_initialized_iff (env.library p.meeting) server.rank
        server.worldSize p.history.self).trans
      exact or_congr_right ⟨fun h => ⟨hstore, h⟩, fun h => h.2⟩

theorem autoInit_effect :
    Keeps (autoInit newGroup env server raises)
      (fun t => t.numbers = (if server.autoPg = true ∧ p.history.self.initialized = false then
            asked raises p.numbers else p.numbers) ∧
        (server.autoPg = true → (t.history.self.initialized = true ↔
          p.history.self.initialized = true ∨ Meets env raises p))) p := by
  simp only [autoInit, Keeps, wp_bind, wp_distIsInitialized, wp_ite]
  constructor
  · intro hasks
    rw [if_pos hasks]
    apply wp_mono initProcessGroup_effect
    · exact fun _ _ h => ⟨h.1, fun _ => h.2⟩
    · exact fun _ _ h => ⟨h.1, fun _ => h.2⟩
  · intro hnot
    rw [if_neg hnot]
    refine ⟨rfl, fun hauto => ?_⟩
    have hinit : p.history.self.initialized = true := by
      by_contra hdown
      exact hnot ⟨hauto, (Bool.not_eq_true _).mp hdown⟩
    exact iff_of_true hinit (Or.inl hinit)

/-- Of an `update`, only the first statement numbers a store. -/
theorem update_numbers (hreq : u.hasReqFunc = true) :
    Keeps (update newGroup env server u)
      (fun t => t.numbers = (if server.autoPg = true ∧ p.history.self.initialized = false then
        asked u.raises p.numbers else p.numbers)) p := by
  rw [update, Keeps, wp_bind, assertion, wp_require_of hreq, wp_bind, wp_tryCatch]
  have hmade : Keeps (makeRanksGroup newGroup env server u)
      (fun t => t.numbers = (if server.autoPg = true ∧ p.history.self.initialized = false then
        asked u.raises p.numbers else p.numbers)) p := by
    apply keeps_bind (wp_mono autoInit_effect (fun _ _ h => h.1) fun _ _ h => h.1)
    exact fun _ _ h => keeps_ite h (distNewGroup_numbers.keeps h)
  apply wp_mono hmade
  · exact fun _ _ h => (preserves_tryFinally updateWith_numbers updateFinally_numbers).keeps h
  · intro e t h
    rw [wp_bind]
    exact wp_mono (updateFinally_numbers.keeps h) (fun _ _ h => h) fun _ _ h => h

/-- A collective leaves the world up or down. -/
theorem collective_effect (hnew : MakesGroups newGroup) {quiet fresh : Prop}
    {object : Option GroupObject} (call : Distributed.Call)
    (h : OrderlyProcess newGroup quiet fresh server object p) (hcall : call.Collective)
    (hgroup : call.group = object.map GroupObject.group) (hfits : Fits server.rank object call) :
    Keeps (dist newGroup env call object)
      (fun t => OrderlyProcess newGroup quiet fresh server object t ∧ t.numbers = p.numbers ∧
        t.history.self.initialized = p.history.self.initialized) p := by
  refine keeps_and (keeps_collective hnew call h hcall hgroup hfits)
    (keeps_and (dist_numbers p) (keeps_dist.mpr ?_))
  rw [Process.called, History.next_self]
  exact (@perform_collective_frame newGroup (env.library p) _ call hcall h.2.place).1

/-- The numbers and the world behind `if self._auto_pg and not dist.is_initialized()`. -/
def BehindAutoInit (server : ParameterServer) (env : Environment)
    (raises : Place → Option PyError) (p t : Process) : Prop :=
  t.numbers = (if server.autoPg = true ∧ p.history.self.initialized = false then
      asked raises p.numbers else p.numbers) ∧
    (server.autoPg = true → (t.history.self.initialized = true ↔
      p.history.self.initialized = true ∨ Meets env raises p))

theorem gatherMetas_effect (hnew : MakesGroups newGroup)
    (h : OrderlyProcess newGroup True (Managed True server) server none p) :
    Keeps (gatherMetas newGroup env server raises) (BehindAutoInit server env raises p) p := by
  have hkeeps : Keeps (gatherMetas newGroup env server raises)
      (fun t => OrderlyProcess newGroup True (Managed True server) server none t ∧
        BehindAutoInit server env raises p t) p := by
    apply keeps_bind (keeps_and (autoInit_keeps hnew h) autoInit_effect)
    intro _ _ h
    apply keeps_bind (keeps_distIsInitialized h)
    intro _ _ h
    apply keeps_bind (keeps_assertion h)
    intro _ _ h
    apply keeps_bind (keeps_outside h)
    intro _ t h
    have hgather : Keeps (dist newGroup env (.allGatherObject none) none)
        (fun t => OrderlyProcess newGroup True (Managed True server) server none t ∧
          BehindAutoInit server env raises p t) t := by
      have hbehind : ∀ t', OrderlyProcess newGroup True (Managed True server) server none t' ∧
          t'.numbers = t.numbers ∧ t'.history.self.initialized = t.history.self.initialized →
          OrderlyProcess newGroup True (Managed True server) server none t' ∧
            BehindAutoInit server env raises p t' :=
        fun t' h' => ⟨h'.1, h'.2.1.trans h.2.1, fun hauto => h'.2.2 ▸ h.2.2 hauto⟩
      apply wp_mono (collective_effect hnew (.allGatherObject none) h.1 trivial rfl fits_none)
      · exact fun _ t' => hbehind t'
      · exact fun _ t' => hbehind t'
    exact keeps_bind hgather fun _ _ h => keeps_outside h
  exact wp_mono hkeeps (fun _ _ h => h.2) fun _ _ h => h.2

/-- What a call does to the numbers of its rank, and to its world. -/
structure Effect (server : ParameterServer) (env : Environment) (operation : Operation)
    (p t : Process) : Prop where
  asks : operation.Asks server p → t.numbers = asked operation.raises p.numbers
  stays : ¬ operation.Asks server p → t.numbers = p.numbers
  world : server.autoPg = true →
    (t.history.self.initialized = true ↔ operation.WorldUp env p)

/-- An `update` numbers a store where it needs a world, and leaves none up. -/
theorem update_effect (hnew : MakesGroups newGroup) (henv : env.Quiet)
    (h : OrderlyProcess newGroup True (Managed True server) server none p)
    (hreq : u.hasReqFunc = true) :
    Keeps (update newGroup env server u) (Effect server env (.update u) p) p := by
  have heffect : ∀ t, (Finished newGroup True server t ∧ t.numbers =
      (if server.autoPg = true ∧ p.history.self.initialized = false then
        asked u.raises p.numbers else p.numbers)) → Effect server env (.update u) p t := by
    intro t ht
    obtain ⟨hfinished, hnumbers⟩ := ht
    refine ⟨fun hasks => hnumbers.trans (if_pos hasks.2), fun hnot => ?_, fun hauto => ?_⟩
    · exact hnumbers.trans (if_neg fun hdown => hnot ⟨hreq, hdown⟩)
    · refine iff_of_false (fun hinit => ?_) fun hup => ?_
      · exact absurd ((hfinished.2 ⟨trivial, hauto⟩).symm.trans hinit) Bool.false_ne_true
      · exact absurd (hup.1.symm.trans hreq) Bool.false_ne_true
  apply wp_mono (keeps_and (update_finishes hnew (fun _ => henv) h hreq) (update_numbers hreq))
  · exact fun _ t => heffect t
  · exact fun _ t => heffect t

theorem perform_effect (hnew : MakesGroups newGroup) (henv : env.Quiet)
    (h : OrderlyProcess newGroup True (Managed True server) server none p)
    (operation : Operation) :
    Effect server env operation p (after (perform newGroup env server operation) p) := by
  cases operation with
  | initProcessGroup raises =>
      obtain ⟨hnumbers, hworld⟩ := keeps_iff.mp
        (@initProcessGroup_effect newGroup env server p raises)
      exact ⟨fun _ => hnumbers, fun hnot => absurd trivial hnot, fun _ => hworld⟩
  | gatherMetas raises =>
      obtain ⟨hnumbers, hworld⟩ := keeps_iff.mp (@gatherMetas_effect _ env _ _ raises hnew h)
      exact ⟨fun hasks => hnumbers.trans (if_pos hasks),
        fun hnot => hnumbers.trans (if_neg hnot), hworld⟩
  | update u =>
      by_cases hreq : u.hasReqFunc = true
      · exact keeps_iff.mp (update_effect hnew henv h hreq)
      · have hsame : Keeps (update newGroup env server u) (· = p) p := by
          rw [update, Keeps, wp_bind, assertion, wp_require_of_not hreq]
        rw [perform, keeps_iff.mp hsame]
        exact ⟨fun hasks => absurd hasks.1 hreq, fun _ => rfl,
          fun _ => (and_iff_right ((Bool.not_eq_true _).mp hreq)).symm⟩
  | barrier =>
      obtain ⟨_, hnumbers, hworld⟩ := keeps_iff.mp
        (@collective_effect _ env _ _ hnew _ _ _ (.barrier none) h trivial rfl fits_none)
      exact ⟨False.elim, fun _ => hnumbers, fun _ => Bool.coe_iff_coe.mpr hworld⟩
  | destroyProcessGroup =>
      have hdown := (keeps_iff.mp (keeps_destroyWorld hnew (fun _ => henv) h)).2 trivial
      refine ⟨False.elim, fun _ => keeps_iff.mp (dist_numbers p), fun _ => ?_⟩
      exact iff_of_false (fun hinit => absurd (hdown.symm.trans hinit) Bool.false_ne_true) id

end Effect

/-! ## All ranks -/

/-- The same call, up to what it is answered on its rank. -/
def Operation.Alike : Operation → Operation → Prop
  | .initProcessGroup _, .initProcessGroup _ => True
  | .gatherMetas _, .gatherMetas _ => True
  | .update u, .update u' => u.hasReqFunc = u'.hasReqFunc
  | .barrier, .barrier => True
  | .destroyProcessGroup, .destroyProcessGroup => True
  | _, _ => False

/-- The server of a rank. -/
def serverOf {worldSize : Nat} (autoPg : Bool) (rank : Fin worldSize) : ParameterServer :=
  ⟨rank, worldSize, autoPg⟩

/-- All ranks make a call. -/
def cluster (newGroup : Library → List Int → Method (Option CommGroup)) (worldSize : Nat)
    (autoPg : Bool) : Machine (Fin worldSize → Process) (Fin worldSize → Environment × Operation)
    where
  init _ := .start
  step s agents := some fun rank =>
    after (perform newGroup (agents rank).1 (serverOf autoPg rank) (agents rank).2) (s rank)

section Cluster

variable {newGroup : Library → List Int → Method (Option CommGroup)} {worldSize : Nat}
  {autoPg : Bool} {s : Fin worldSize → Process}

/-- The ranks make the same call, which does not raise where it is to destroy a communicator.
Where it initialises a world, it does so on all ranks or on none. -/
structure Together (autoPg : Bool) (s : Fin worldSize → Process)
    (agents : Fin worldSize → Environment × Operation) : Prop where
  alike : ∀ r r', (agents r).2.Alike (agents r').2
  quiet : ∀ r, (agents r).1.Quiet
  stores : ∀ r r', (agents r).2.Asks (serverOf autoPg r) (s r) →
    (agents r').2.Asks (serverOf autoPg r') (s r') →
      ((agents r).2.raises .makeStore = none ↔ (agents r').2.raises .makeStore = none)
  meets : ∀ r r', (agents r).2.Asks (serverOf autoPg r) (s r) →
    (agents r').2.Asks (serverOf autoPg r') (s r') →
      (Meets (agents r).1 (agents r).2.raises (s r) ↔
        Meets (agents r').1 (agents r').2.raises (s r'))

/-- The ranks have asked for the same stores, and where the servers manage their worlds, a
world is up on all ranks or on none. -/
def Agree (autoPg : Bool) (p p' : Process) : Prop :=
  p.numbers = p'.numbers ∧
    (autoPg = true → p.history.self.initialized = p'.history.self.initialized)

theorem Agree.asks_iff {p p' : Process} {operation operation' : Operation}
    {r r' : Fin worldSize} (h : Agree autoPg p p') (halike : operation.Alike operation') :
    operation.Asks (serverOf autoPg r) p ↔ operation'.Asks (serverOf autoPg r') p' := by
  have hdown : autoPg = true ∧ p.history.self.initialized = false ↔
      autoPg = true ∧ p'.history.self.initialized = false :=
    and_congr_right fun hauto => by rw [h.2 hauto]
  cases operation <;> cases operation' <;> try exact halike.elim
  case initProcessGroup.initProcessGroup => exact Iff.rfl
  case gatherMetas.gatherMetas => exact hdown
  case update.update u u' =>
    have hreq : u.hasReqFunc = u'.hasReqFunc := halike
    exact and_congr (by rw [hreq]) hdown
  case barrier.barrier => exact Iff.rfl
  case destroyProcessGroup.destroyProcessGroup => exact Iff.rfl

/-- A world that is not asked for is up before. -/
theorem Agree.worldUp_iff {p p' : Process} {env env' : Environment}
    {operation operation' : Operation} {r r' : Fin worldSize} (hauto : autoPg = true)
    (h : Agree autoPg p p') (halike : operation.Alike operation')
    (hmeets : operation.Asks (serverOf autoPg r) p → operation'.Asks (serverOf autoPg r') p' →
      (Meets env operation.raises p ↔ Meets env' operation'.raises p')) :
    operation.WorldUp env p ↔ operation'.WorldUp env' p' := by
  have hinit := h.2 hauto
  have hasks := @Agree.asks_iff _ _ _ _ _ _ r r' h halike
  cases operation <;> cases operation' <;> try exact halike.elim
  case initProcessGroup.initProcessGroup =>
    exact or_congr (by rw [hinit]) (hmeets trivial trivial)
  case gatherMetas.gatherMetas raises raises' =>
    rw [Operation.WorldUp, Operation.WorldUp, hinit]
    apply or_congr_right'
    intro hdown
    have hask' : Operation.Asks (serverOf autoPg r') p' (.gatherMetas raises') :=
      ⟨hauto, (Bool.not_eq_true _).mp hdown⟩
    exact hmeets (hasks.mpr hask') hask'
  case update.update u u' =>
    have hreq : u.hasReqFunc = u'.hasReqFunc := halike
    rw [Operation.WorldUp, Operation.WorldUp, hinit, hreq]
  case barrier.barrier => rw [Operation.WorldUp, Operation.WorldUp, hinit]
  case destroyProcessGroup.destroyProcessGroup => exact Iff.rfl

/-- Every rank is orderly, and every two agree. -/
structure Aligned (newGroup : Library → List Int → Method (Option CommGroup)) (autoPg : Bool)
    (s : Fin worldSize → Process) : Prop where
  orderly : ∀ r, OrderlyProcess newGroup True (Managed True (serverOf autoPg r))
    (serverOf autoPg r) none (s r)
  agree : ∀ r r', Agree autoPg (s r) (s r')

theorem Aligned.step (hnew : MakesGroups newGroup) (h : Aligned newGroup autoPg s)
    {agents : Fin worldSize → Environment × Operation} (htogether : Together autoPg s agents) :
    Aligned newGroup autoPg fun rank =>
      after (perform newGroup (agents rank).1 (serverOf autoPg rank) (agents rank).2)
        (s rank) where
  orderly r := keeps_iff.mp
    (perform_keeps hnew (fun _ => htogether.quiet r) (agents r).2 (h.orderly r))
  agree r r' := by
    have hagree := h.agree r r'
    have halike := htogether.alike r r'
    have hasks := @Agree.asks_iff _ _ _ _ _ _ r r' hagree halike
    have heffect := perform_effect hnew (htogether.quiet r) (h.orderly r) (agents r).2
    have heffect' := perform_effect hnew (htogether.quiet r') (h.orderly r') (agents r').2
    constructor
    · by_cases hask : (agents r).2.Asks (serverOf autoPg r) (s r)
      · have hask' := hasks.mp hask
        rw [heffect.asks hask, heffect'.asks hask', hagree.1, asked, asked]
        simp only [htogether.stores r r' hask hask']
      · rw [heffect.stays hask, heffect'.stays fun hask' => hask (hasks.mpr hask')]
        exact hagree.1
    · intro hauto
      have hup := hagree.worldUp_iff hauto halike (htogether.meets r r')
      exact Bool.eq_iff_iff.mpr
        ((heffect.world hauto).trans (hup.trans (heffect'.world hauto).symm))

theorem aligned_of_run (hnew : MakesGroups newGroup)
    (h : (cluster newGroup worldSize autoPg).ReachableBy (Together autoPg) s) :
    Aligned newGroup autoPg s := by
  apply Machine.ReachableBy.invariant (I := Aligned newGroup autoPg) _ _ h
  · exact ⟨fun _ => ⟨.nil, .start⟩, fun _ _ => ⟨rfl, fun _ => rfl⟩⟩
  · intro s agents t hs htogether hstep
    obtain rfl := Option.some.inj hstep
    exact hs.step hnew htogether

end Cluster

/-- Of both backends: over any sequence of calls that all ranks make, each of which may raise
on some ranks and at any place, but for where a communicator is destroyed and where a world
comes up on the other ranks: the ranks have asked for the same stores in the same order, and
with servers that manage their worlds a world is up on all ranks or on none. -/
theorem ranks_meet_in_same_stores {worldSize : Nat} (autoPg : Bool)
    (s : Fin worldSize → Process) :
    ((cluster Nccl.newGroup worldSize autoPg).ReachableBy (Together autoPg) s →
        ∀ r r', Agree autoPg (s r) (s r')) ∧
      ((cluster Hccl.newGroup worldSize autoPg).ReachableBy (Together autoPg) s →
        ∀ r r', Agree autoPg (s r) (s r')) :=
  ⟨fun h => (aligned_of_run nccl_makesGroups h).agree,
    fun h => (aligned_of_run hccl_makesGroups h).agree⟩

/-- Rank 0 of two fails in the update, rank 1 before it has made a group. -/
def failingApart (rank : Fin 2) : Environment × Operation :=
  (obliging, .update
    { failingUpdate with
      raises := fun place =>
        if place = (if rank = 0 then .exchange .recvLast else .buildIpcHandler) then
          some (.runtimeError "")
        else none })

/-- Both ranks gather metas. -/
def gatherTogether (_ : Fin 2) : Environment × Operation := (obliging, .gatherMetas fun _ => none)

theorem obliging_together {agents : Fin 2 → Environment × Operation}
    (halike : ∀ r r', (agents r).2.Alike (agents r').2) (hlibrary : ∀ r, (agents r).1 = obliging)
    (hstores : ∀ r, (agents r).2.raises .makeStore = none) (s : Fin 2 → Process) :
    Together true s agents where
  alike := halike
  quiet r := by
    rw [hlibrary r]
    exact obliging_quiet
  stores r r' _ _ := iff_of_true (hstores r) (hstores r')
  meets r r' _ _ := by
    rw [hlibrary r, hlibrary r']
    exact iff_of_true ⟨hstores r, fun _ _ => rfl⟩ ⟨hstores r', fun _ _ => rfl⟩

theorem gatherTogether_together (s : Fin 2 → Process) : Together true s gatherTogether :=
  @obliging_together gatherTogether (fun _ _ => trivial) (fun _ => rfl) (fun _ => rfl) s

theorem failingApart_together (s : Fin 2 → Process) : Together true s failingApart :=
  @obliging_together failingApart (fun _ _ => rfl) (fun _ => rfl) (by decide) s

/-- The ranks gather metas, fail apart from each other, and gather metas again. -/
def failAndGather : List (Fin 2 → Environment × Operation) :=
  [gatherTogether, failingApart, gatherTogether]

theorem failAndGather_together (s : Fin 2 → Process) :
    ∀ agents ∈ failAndGather, Together true s agents := by
  simp only [failAndGather, List.forall_mem_cons, List.not_mem_nil, false_implies, implies_true,
    and_true]
  exact ⟨gatherTogether_together s, failingApart_together s, gatherTogether_together s⟩

/-- Each rank has asked for two stores, and they agree. -/
theorem ranks_meet_in_same_stores_failAndGather :
    (∃ s, (cluster Nccl.newGroup 2 true).Reachable s ∧ (∀ r, (s r).storeCounter = 2) ∧
        ∀ r r', Agree true (s r) (s r')) ∧
      (∃ s, (cluster Hccl.newGroup 2 true).Reachable s ∧ (∀ r, (s r).storeCounter = 2) ∧
        ∀ r r', Agree true (s r) (s r')) := by
  obtain ⟨nccl, hnccl, hncclCounter⟩ :=
    @Machine.exists_of_run _ _ (cluster Nccl.newGroup 2 true)
      (fun s => ∀ r, (s r).storeCounter = 2) _ failAndGather (by decide +kernel)
  obtain ⟨hccl, hhccl, hhcclCounter⟩ :=
    @Machine.exists_of_run _ _ (cluster Hccl.newGroup 2 true)
      (fun s => ∀ r, (s r).storeCounter = 2) _ failAndGather (by decide +kernel)
  refine ⟨⟨nccl, Machine.steps_run hnccl, hncclCounter, ?_⟩, hccl, Machine.steps_run hhccl,
    hhcclCounter, ?_⟩
  · exact (ranks_meet_in_same_stores true nccl).1
      (Machine.ReachableBy.run failAndGather_together .init hnccl)
  · exact (ranks_meet_in_same_stores true hccl).2
      (Machine.ReachableBy.run failAndGather_together .init hhccl)

end CheckpointEngine.Server
