/-
  `Server.GroupSafety`: the parameter server as a user of its backend.

  Over any sequence of calls of the server, with whatever raises in them, the calls that it
  makes of the backend are ones the backend is safe for; and where the library destroys what
  it is told to, no communicator outlives the `update` or the world that it was made for.
-/
import CheckpointEngine.Server.Orderly
import CheckpointEngine.Distributed.SubcommIds

set_option autoImplicit false

namespace CheckpointEngine.Server

open CheckpointEngine.Foundation
open CheckpointEngine.Foundation.Command
open CheckpointEngine.Distributed
open CheckpointEngine.Plan (genH2dBuckets genH2dBuckets_receivers)
open CheckpointEngine.Update (Planned bucketsByReceiverRank maxLen receiverRankBuckets)

/-- The library does not raise where it is to destroy a communicator. -/
def Environment.Quiet (env : Environment) : Prop :=
  ∀ p, (env.library p).raises .destroyComm = none

/-- The server initialises and destroys its worlds itself, and nothing it destroys is left. -/
def Managed (quiet : Prop) (server : ParameterServer) : Prop := quiet ∧ server.autoPg = true

/-- The call is allowed, and where the server manages its worlds a group is the first of its
world. -/
def Expected (managed : Prop) (s : History) (turn : Turn) : Prop :=
  Allowed s turn ∧ (managed → ∀ ranks, turn.call = .newGroup ranks → Untouched s)

/-- The calls so far were such, and the backend is orderly behind them. -/
def OrderlyProcess (newGroup : Library → List Int → Method (Option CommGroup))
    (quiet fresh : Prop) (server : ParameterServer) (object : Option GroupObject)
    (p : Process) : Prop :=
  (lifecycle newGroup).Trace (Expected (Managed quiet server)) p.turns p.history ∧
    Orderly quiet fresh server.rank object p.history

/-- The variables of the server do not matter to it. -/
@[simp] theorem orderlyProcess_mk
    {newGroup : Library → List Int → Method (Option CommGroup)} {quiet fresh : Prop}
    {server : ParameterServer} {object : Option GroupObject} {p : Process}
    {storeCounter gidx retCode : Nat} {stores : List String} :
    OrderlyProcess newGroup quiet fresh server object
      ⟨p.history, p.turns, storeCounter, stores, gidx, retCode⟩ ↔
        OrderlyProcess newGroup quiet fresh server object p := Iff.rfl

section Dist

variable {newGroup : Library → List Int → Method (Option CommGroup)} {quiet fresh : Prop}
  {env : Environment} {server : ParameterServer} {object : Option GroupObject} {p : Process}
  {call : Distributed.Call}

/-- A call that raises has made its changes all the same. -/
theorem wp_dist {Q : Unit → Process → Prop} {E : ServerError → Process → Prop} :
    wp (dist newGroup env call object) Q E p ↔
      match Distributed.perform newGroup (env.library p) call p.history.self with
      | .ok _ _ => Q () (p.called newGroup (env.turn p call (object.map GroupObject.number)))
      | .error e _ =>
          E (.backend e) (p.called newGroup (env.turn p call (object.map GroupObject.number))) := by
  simp only [wp, dist, Environment.turn]
  cases Distributed.perform newGroup (env.library p) call p.history.self <;> rfl

theorem keeps_dist {I : Process → Prop} :
    Keeps (dist newGroup env call object) I p ↔
      I (p.called newGroup (env.turn p call (object.map GroupObject.number))) := by
  rw [Keeps, wp_dist]
  split <;> rfl

/-- A collective that takes data from no one rank fits every group. -/
theorem fits_of_src (hsrc : call.src = none) : Fits server.rank object call := by
  intro _ _ src hmem
  rw [hsrc] at hmem
  cases hmem

theorem fits_none : Fits server.rank none call := fun _ ho => by cases ho

/-- The call is one that the backend admits and that is allowed. -/
theorem OrderlyProcess.allowed (h : OrderlyProcess newGroup quiet fresh server object p)
    (hgroup : call.group = object.map GroupObject.group) (hfits : Fits server.rank object call) :
    p.history.Admits (env.turn p call (object.map GroupObject.number)) ∧
      Allowed p.history (env.turn p call (object.map GroupObject.number)) := by
  have hgiven : Given object (env.turn p call (object.map GroupObject.number)) := ⟨rfl, hgroup⟩
  exact ⟨h.2.admits hgiven (env.worldComm p) (env.newComm p), h.2.allowed hgiven hfits⟩

/-- The run goes on with the call. -/
theorem OrderlyProcess.called (h : OrderlyProcess newGroup quiet fresh server object p)
    {turn : Turn} {fresh' : Prop} {object' : Option GroupObject}
    (hadmits : p.history.Admits turn) (hallowed : Allowed p.history turn)
    (hfirst : Managed quiet server → ∀ ranks, turn.call = .newGroup ranks →
      Untouched p.history)
    (hnext : Orderly quiet fresh' server.rank object' (History.next newGroup p.history turn)) :
    OrderlyProcess newGroup quiet fresh' server object' (p.called newGroup turn) :=
  ⟨h.1.snoc ⟨hallowed, hfirst⟩ (lifecycle_step_iff.mpr ⟨hadmits, rfl⟩), hnext⟩

theorem OrderlyProcess.forget (h : OrderlyProcess newGroup quiet fresh server object p) :
    OrderlyProcess newGroup quiet False server object p :=
  ⟨h.1, h.2.forget⟩

variable (hnew : MakesGroups newGroup)
include hnew

theorem keeps_collective (call : Distributed.Call)
    (h : OrderlyProcess newGroup quiet fresh server object p) (hcall : call.Collective)
    (hgroup : call.group = object.map GroupObject.group)
    (hfits : Fits server.rank object call) :
    Keeps (dist newGroup env call object) (OrderlyProcess newGroup quiet fresh server object) p := by
  obtain ⟨hadmits, hallowed⟩ := h.allowed hgroup hfits
  rw [keeps_dist]
  refine h.called hadmits hallowed (fun _ ranks hnewGroup => ?_)
    (h.2.collective hnew hadmits hallowed hcall)
  change call = .newGroup ranks at hnewGroup
  rw [hnewGroup] at hcall
  exact hcall.elim

theorem keeps_distInit (h : OrderlyProcess newGroup quiet fresh server none p) {worldSize : Int} :
    Keeps (dist newGroup env (.initProcessGroup server.rank worldSize) none)
      (OrderlyProcess newGroup quiet fresh server none) p := by
  obtain ⟨hadmits, hallowed⟩ :=
    @OrderlyProcess.allowed _ _ _ env _ _ _ (.initProcessGroup server.rank worldSize) h rfl
      fits_none
  rw [keeps_dist]
  exact h.called hadmits hallowed (fun _ _ hnewGroup => (by cases hnewGroup))
    (h.2.init hnew hadmits hallowed rfl)

/-- The group that is returned is in use, and has the ranks asked for. -/
theorem wp_distNewGroup (h : OrderlyProcess newGroup quiet (Managed quiet server) server none p)
    {ranks : List Rank} :
    wp (distNewGroup newGroup env ranks)
      (fun object t => OrderlyProcess newGroup quiet False server object t ∧
        ∀ o ∈ object, ∀ r ∈ ranks, (r : Int) ∈ o.group.ranks)
      (fun _ => OrderlyProcess newGroup quiet False server none) p := by
  rw [distNewGroup, wp_bind, wp_get]
  simp only [wp_bind]
  generalize hasked : (ranks.map fun (rank : Rank) => (rank : Int)) = asked
  obtain ⟨hadmits, hallowed⟩ :=
    @OrderlyProcess.allowed _ _ _ env _ _ _ (.newGroup asked) h rfl fits_none
  have hcalled := h.called hadmits hallowed (fun hmanaged _ _ => h.2.untouched hmanaged)
    (h.2.makeGroup hnew hadmits hallowed rfl)
  have hof : ∀ o, objectOf newGroup (env.library p) asked p.history = some o →
      ∀ r ∈ ranks, (r : Int) ∈ o.group.ranks := by
    intro o ho r hr
    have hmem : (r : Int) ∈ asked := by
      rw [← hasked]
      exact List.mem_map_of_mem hr
    rw [objectOf_ranks hnew ho, groupRanks, if_neg (List.ne_nil_of_mem hmem)]
    exact (List.mem_insertionSort _).mpr hmem
  rw [wp_dist]
  cases hrun : Distributed.perform newGroup (env.library p) (.newGroup asked) p.history.self with
  | ok _ _ => exact ⟨hcalled, hof⟩
  | error e t =>
      have hnone : objectOf newGroup (env.library p) asked p.history = none := by
        rw [objectOf, returned_of_error hrun, Option.map_none]
      simp only [Environment.turn] at hcalled
      rw [hnone] at hcalled
      exact hcalled

/-- Where the library destroys what it is told to, so does the call. -/
theorem wp_destroyGroup {o : GroupObject} (henv : quiet → env.Quiet)
    (h : OrderlyProcess newGroup quiet fresh server (some o) p) :
    wp (dist newGroup env (.destroyProcessGroup (some o.group)) (some o))
      (fun _ => OrderlyProcess newGroup quiet fresh server none)
      (fun _ t => OrderlyProcess newGroup quiet fresh server none t ∧ ¬ quiet) p := by
  obtain ⟨hadmits, hallowed⟩ := @OrderlyProcess.allowed _ _ _ env _ _ _
    (.destroyProcessGroup (some o.group)) h rfl (fits_of_src rfl)
  have hcalled := h.called hadmits hallowed (fun _ _ hnewGroup => (by cases hnewGroup))
    (h.2.destroyGroup hnew hadmits hallowed rfl fun hq => henv hq p)
  rw [wp_dist]
  split
  · exact hcalled
  · rename_i e t hrun
    refine ⟨hcalled, fun hq => ?_⟩
    have hholds := h.2.holds o rfl
    obtain ⟨c, hc⟩ := h.2.place hholds.initialized
    have hreturns := destroyProcessGroup_group hholds.initialized hc
      (h.2.alive.notNull hholds.group_eq)
      (h.2.alive.known hholds.group_eq hholds.stands.destroyed) (henv hq p)
    rw [Distributed.perform, hreturns.2] at hrun
    cases hrun

theorem keeps_destroyWorld (henv : quiet → env.Quiet)
    (h : OrderlyProcess newGroup quiet fresh server none p) :
    Keeps (dist newGroup env (.destroyProcessGroup none) none)
      (fun t => OrderlyProcess newGroup quiet fresh server none t ∧
        (quiet → t.history.self.initialized = false)) p := by
  obtain ⟨hadmits, hallowed⟩ := @OrderlyProcess.allowed _ _ _ env _ _ _
    (.destroyProcessGroup none) h rfl fits_none
  obtain ⟨hnext, hdown⟩ := h.2.destroyWorld hnew hadmits hallowed rfl fun hq => henv hq p
  rw [keeps_dist]
  exact ⟨h.called hadmits hallowed (fun _ _ hnewGroup => (by cases hnewGroup)) hnext, hdown⟩

end Dist

/-! ## The calls of the server -/

section Server

variable {newGroup : Library → List Int → Method (Option CommGroup)} {quiet fresh : Prop}
  {env : Environment} {server : ParameterServer} {object : Option GroupObject} {p : Process}
  {u : UpdateCall} {raises : Place → Option PyError}

theorem keeps_outside {place : Place} {I : Process → Prop} (h : I p) :
    Keeps (outside raises place) I p :=
  keeps_attempt h

theorem keeps_assertion {q : Prop} [Decidable q] {message : String} {I : Process → Prop}
    (h : I p) : Keeps (assertion q message) I p :=
  keeps_require h

@[simp] theorem wp_distIsInitialized {Q : Bool → Process → Prop}
    {E : ServerError → Process → Prop} :
    wp distIsInitialized Q E p ↔ Q p.history.self.initialized p := Iff.rfl

theorem keeps_distIsInitialized {I : Process → Prop} (h : I p) : Keeps distIsInitialized I p := h

theorem keeps_ofExcept {α : Type} {x : Except PyError α} {I : Process → Prop} (h : I p) :
    Keeps (ofExcept x) I p := by
  cases x <;> exact h

/-- What is planned is received by ranks of the update. -/
theorem wp_planned {bucketSize : Nat} {I : Process → Prop} (h : I p) :
    wp (planned u bucketSize)
      (fun buckets t => I t ∧ (u.ranks ≠ [] → ∀ b ∈ buckets, b.1 ∈ u.ranks)) (fun _ => I) p := by
  rw [planned]
  split
  · rename_i hplan
    exact ⟨h, fun hranks => genH2dBuckets_receivers hranks hplan⟩
  · exact ⟨h, fun _ _ hb => (by cases hb)⟩
  · exact h

/-- The group in use was made for the ranks of the update. -/
def OfRanks (object : Option GroupObject) (ranks : List Rank) : Prop :=
  ∀ o ∈ object, ∀ r ∈ ranks, (r : Int) ∈ o.group.ranks

/-- The rank takes part in the update. -/
def TakesPart (rank : Rank) (ranks : List Rank) : Prop := ranks ≠ [] → rank ∈ ranks

/-- The group fits a broadcast of the update. -/
theorem fits_broadcast {receiver : Rank} {group : Option CommGroup}
    (hobject : OfRanks object u.ranks) (hempty : u.ranks = [] → object = none)
    (hpart : TakesPart server.rank u.ranks) (hreceiver : u.ranks ≠ [] → receiver ∈ u.ranks) :
    Fits server.rank object (.broadcast (some (receiver : Int)) group) := by
  intro o ho src hsrc
  obtain rfl := Option.some.inj hsrc
  have hranks : u.ranks ≠ [] := by
    intro hnone
    rw [hempty hnone] at ho
    cases ho
  exact ⟨hobject o ho receiver (hreceiver hranks), hobject o ho server.rank (hpart hranks)⟩

/-- What is called between two collectives leaves the backend alone. -/
theorem acquire_keeps {p2pUpdate disableH2dBuffer : Bool}
    (h : OrderlyProcess newGroup quiet fresh server object p) :
    Keeps (acquire u p2pUpdate disableH2dBuffer)
      (OrderlyProcess newGroup quiet fresh server object) p := by
  simp [acquire, outside, Keeps, h]

theorem fillBuffer_keeps {p2pUpdate disableH2dBuffer : Bool} {buckets : List Planned} {i g : Nat}
    {receiver : Rank} {bucket : H2DBucket}
    (h : OrderlyProcess newGroup quiet fresh server object p) :
    Keeps (fillBuffer server u p2pUpdate disableH2dBuffer buckets i g receiver bucket)
      (OrderlyProcess newGroup quiet fresh server object) p := by
  simp [fillBuffer, outside, assertion, Keeps, h]

theorem recvReply_keeps {g : Nat} (h : OrderlyProcess newGroup quiet fresh server object p) :
    Keeps (recvReply u g) (OrderlyProcess newGroup quiet fresh server object) p := by
  simp [recvReply, outside, Keeps, h]

theorem answerWorker_keeps {g : Nat} (h : OrderlyProcess newGroup quiet fresh server object p) :
    Keeps (answerWorker u g) (OrderlyProcess newGroup quiet fresh server object) p := by
  simp [answerWorker, outside, Keeps, h]

/-- Behind an `update`: no group is in use, and where the library is quiet, a server that
manages its world has none. -/
def Finished (newGroup : Library → List Int → Method (Option CommGroup)) (quiet : Prop)
    (server : ParameterServer) (p : Process) : Prop :=
  OrderlyProcess newGroup quiet False server none p ∧
    (Managed quiet server → p.history.self.initialized = false)

theorem Finished.untouched (h : Finished newGroup quiet server p) :
    OrderlyProcess newGroup quiet (Managed quiet server) server none p :=
  ⟨h.1.1, h.1.2.alive, h.1.2.world, h.1.2.rank, h.1.2.holds, h.1.2.left,
    fun hmanaged hinit => absurd ((h.2 hmanaged).symm.trans hinit) Bool.false_ne_true⟩

variable (hnew : MakesGroups newGroup)
include hnew

theorem initProcessGroup_keeps (h : OrderlyProcess newGroup quiet fresh server none p) :
    Keeps (initProcessGroup newGroup env server raises)
      (OrderlyProcess newGroup quiet fresh server none) p := by
  apply keeps_bind (keeps_modify h)
  intro _ _ h
  apply keeps_bind (keeps_outside h)
  intro _ _ h
  apply keeps_bind (keeps_modify h)
  exact fun _ _ h => keeps_distInit hnew h

theorem autoInit_keeps (h : OrderlyProcess newGroup quiet fresh server none p) :
    Keeps (autoInit newGroup env server raises)
      (OrderlyProcess newGroup quiet fresh server none) p := by
  apply keeps_bind (keeps_distIsInitialized h)
  exact fun _ _ h => keeps_ite (initProcessGroup_keeps hnew h) h

theorem gatherMetas_keeps (h : OrderlyProcess newGroup quiet fresh server none p) :
    Keeps (gatherMetas newGroup env server raises)
      (OrderlyProcess newGroup quiet fresh server none) p := by
  apply keeps_bind (autoInit_keeps hnew h)
  intro _ _ h
  apply keeps_bind (keeps_distIsInitialized h)
  intro _ _ h
  apply keeps_bind (keeps_assertion h)
  intro _ _ h
  apply keeps_bind (keeps_outside h)
  intro _ _ h
  apply keeps_bind (keeps_collective hnew (.allGatherObject none) h trivial rfl fits_none)
  exact fun _ _ => keeps_outside

theorem wp_chooseMode (h : OrderlyProcess newGroup quiet fresh server object p) :
    wp (chooseMode newGroup env server u object)
      (fun mode t => OrderlyProcess newGroup quiet fresh server object t ∧
        (mode.isSome = true → TakesPart server.rank u.ranks))
      (fun _ => OrderlyProcess newGroup quiet fresh server object) p := by
  simp only [chooseMode, assertion, wp_bind, wp_require, wp_distIsInitialized, wp_ite, wp_pure]
  refine ⟨fun _ => ⟨fun _ => ⟨fun _ => ⟨fun hnone => ?_, fun _ => ?_⟩, fun _ => h⟩, fun _ => h⟩,
    fun _ => h⟩
  · exact ⟨h, fun _ hranks => absurd hnone hranks⟩
  · refine ⟨fun _ => ⟨fun _ => ⟨fun hmem => ?_, fun _ => ?_⟩, fun _ => h⟩, fun _ => h⟩
    · apply wp_mono (keeps_collective hnew (.barrier _) h trivial rfl (fits_of_src rfl))
      · exact fun _ _ h => ⟨h, fun _ _ => hmem⟩
      · exact fun _ _ h => h
    · exact ⟨h, fun hsome => (by cases hsome)⟩

theorem wp_plan (h : OrderlyProcess newGroup quiet fresh server object p) :
    wp (plan newGroup env u object)
      (fun out t => OrderlyProcess newGroup quiet fresh server object t ∧
        (u.ranks ≠ [] → ∀ b ∈ out.2, b.1 ∈ u.ranks))
      (fun _ => OrderlyProcess newGroup quiet fresh server object) p := by
  rw [plan, wp_bind]
  apply wp_mono (keeps_outside h) _ fun _ _ h => h
  intro _ _ h
  rw [wp_bind]
  apply wp_mono (keeps_collective hnew (.allReduce _) h trivial rfl (fits_of_src rfl)) _
    fun _ _ h => h
  intro _ _ h
  rw [wp_bind]
  apply wp_mono (keeps_outside h) _ fun _ _ h => h
  intro _ _ h
  rw [wp_bind]
  apply wp_mono (keeps_ofExcept h) _ fun _ _ h => h
  intro detected _ h
  rw [wp_bind]
  exact wp_mono (wp_planned h) (fun _ _ h => h) fun _ _ h => h

theorem turnStep_keeps {p2pUpdate disableH2dBuffer : Bool} {buckets : List Planned} {i : Nat}
    {receiver : Rank} {bucket : H2DBucket}
    (hfits : Fits server.rank object
      (.broadcast (some (receiver : Int)) (object.map GroupObject.group)))
    (h : OrderlyProcess newGroup quiet fresh server object p) :
    Keeps (turnStep newGroup env server u object p2pUpdate disableH2dBuffer buckets i receiver
      bucket) (OrderlyProcess newGroup quiet fresh server object) p := by
  apply keeps_bind (keeps_get h)
  intro _ _ h
  apply keeps_bind (keeps_outside h)
  intro _ _ h
  apply keeps_bind (fillBuffer_keeps h)
  intro _ _ h
  apply keeps_bind (keeps_collective hnew (.broadcast _ _) h trivial rfl hfits)
  intro _ _ h
  apply keeps_bind (recvReply_keeps h)
  intro _ _ h
  apply keeps_bind (keeps_collective hnew (.allReduce _) h trivial rfl (fits_of_src rfl))
  exact fun _ _ => answerWorker_keeps

theorem rowStep_keeps {p2pUpdate disableH2dBuffer : Bool} {buckets : List Planned} {i : Nat}
    (hfits : ∀ b ∈ buckets, Fits server.rank object
      (.broadcast (some (b.1 : Int)) (object.map GroupObject.group)))
    (h : OrderlyProcess newGroup quiet fresh server object p) :
    Keeps (rowStep newGroup env server u object p2pUpdate disableH2dBuffer buckets i)
      (OrderlyProcess newGroup quiet fresh server object) p := by
  have hstage : Keeps (stageBucket server u disableH2dBuffer buckets i)
      (OrderlyProcess newGroup quiet fresh server object) p :=
    keeps_ite (keeps_outside h) h
  apply keeps_bind hstage
  intro _ _ h
  refine keeps_forM_of_mem (fun entry hentry t h => ?_) h
  obtain ⟨receiver, own⟩ := entry
  cases hown : own[i]? with
  | none =>
      simp only [hown]
      exact h
  | some bucket =>
      simp only [hown]
      -- every receiver of the table has a planned bucket
      have hkey : receiver ∈ (bucketsByReceiverRank buckets).map Prod.fst :=
        List.mem_map_of_mem hentry
      obtain ⟨b, hb, rfl⟩ := mem_keys_groupBy.mp hkey
      exact turnStep_keeps hnew (hfits b hb) h

theorem exchangeBuckets_keeps {p2pUpdate disableH2dBuffer : Bool} {buckets : List Planned}
    (hfits : ∀ b ∈ buckets, Fits server.rank object
      (.broadcast (some (b.1 : Int)) (object.map GroupObject.group)))
    (h : OrderlyProcess newGroup quiet fresh server object p) :
    Keeps (exchangeBuckets newGroup env server u object p2pUpdate disableH2dBuffer buckets)
      (OrderlyProcess newGroup quiet fresh server object) p := by
  apply keeps_bind (keeps_forM (fun i _ h => rowStep_keeps hnew hfits h) h)
  intro _ _ h
  simp [outside, Keeps, h]

theorem release_keeps {p2pUpdate : Bool}
    (h : OrderlyProcess newGroup quiet fresh server object p) :
    Keeps (release newGroup env u object p2pUpdate)
      (OrderlyProcess newGroup quiet fresh server object) p := by
  apply keeps_bind (keeps_collective hnew (.barrier _) h trivial rfl (fits_of_src rfl))
  intro _ _ h
  simp [outside, Keeps, h]

/-- The exchange goes on with the group it was given, and with no other. -/
theorem updatePerBucket_keeps (hobject : OfRanks object u.ranks)
    (hempty : u.ranks = [] → object = none)
    (h : OrderlyProcess newGroup quiet fresh server object p) :
    Keeps (updatePerBucket newGroup env server u object)
      (OrderlyProcess newGroup quiet fresh server object) p := by
  rw [updatePerBucket, Keeps, wp_bind]
  apply wp_mono (wp_chooseMode hnew h) _ fun _ _ h => h
  intro mode t hmode
  obtain ⟨h, hpart⟩ := hmode
  cases mode with
  | none => exact h
  | some p2pUpdate =>
      rw [wp_bind]
      apply wp_mono (wp_plan hnew h) _ fun _ _ h => h
      intro out t hout
      obtain ⟨h, hreceivers⟩ := hout
      have hfits : ∀ b ∈ out.2, Fits server.rank object
          (.broadcast (some (b.1 : Int)) (object.map GroupObject.group)) :=
        fun b hb => fits_broadcast hobject hempty (hpart rfl) fun hranks => hreceivers hranks b hb
      rw [wp_bind]
      apply wp_mono (acquire_keeps h) _ fun _ _ h => h
      intro _ t h
      rw [wp_tryFinally]
      apply wp_mono (exchangeBuckets_keeps hnew hfits h)
      · exact fun _ t h => release_keeps hnew h
      · exact fun _ t h => release_keeps hnew h

theorem wp_makeRanksGroup
    (h : OrderlyProcess newGroup quiet (Managed quiet server) server none p) :
    wp (makeRanksGroup newGroup env server u)
      (fun object t => OrderlyProcess newGroup quiet False server object t ∧
        OfRanks object u.ranks ∧ (u.ranks = [] → object = none))
      (fun _ => OrderlyProcess newGroup quiet False server none) p := by
  rw [makeRanksGroup, wp_bind]
  apply wp_mono (autoInit_keeps hnew h) _ fun _ _ h => h.forget
  intro _ t h
  rw [wp_ite]
  constructor
  · exact fun _ => ⟨h.forget, fun _ ho => (by cases ho), fun _ => rfl⟩
  · intro hranks
    apply wp_mono (wp_distNewGroup hnew h) _ fun _ _ h => h
    exact fun _ _ h => ⟨h.1, h.2, fun hnone => absurd hnone hranks⟩

theorem updateWith_keeps (hobject : OfRanks object u.ranks)
    (hempty : u.ranks = [] → object = none)
    (h : OrderlyProcess newGroup quiet fresh server object p) :
    Keeps (updateWith newGroup env server u object)
      (OrderlyProcess newGroup quiet fresh server object) p := by
  apply keeps_bind (keeps_outside h)
  intro _ t h
  have hwith : Keeps (tryFinally (updatePerBucket newGroup env server u object)
      (outside u.raises .closeIpcHandler))
      (OrderlyProcess newGroup quiet fresh server object) t := by
    rw [Keeps, wp_tryFinally]
    apply wp_mono (updatePerBucket_keeps hnew hobject hempty h)
    · exact fun _ _ h => keeps_outside h
    · exact fun _ _ h => keeps_outside h
  exact keeps_bind hwith fun _ _ h => keeps_outside h

/-- The second half of the `finally`. -/
theorem endWorld_finishes (henv : quiet → env.Quiet)
    (h : OrderlyProcess newGroup quiet False server none p) :
    Keeps (do
        let initialized ← distIsInitialized
        if server.autoPg = true ∧ initialized = true then
          dist newGroup env (.destroyProcessGroup none) none
        outside u.raises .emptyCache) (Finished newGroup quiet server) p := by
  simp only [Keeps, wp_bind, wp_distIsInitialized, wp_ite]
  constructor
  · intro _
    have hfinished : ∀ t, OrderlyProcess newGroup quiet False server none t ∧
        (quiet → t.history.self.initialized = false) → Finished newGroup quiet server t :=
      fun t h => ⟨h.1, fun hmanaged => h.2 hmanaged.1⟩
    apply wp_mono (keeps_destroyWorld hnew henv h)
    · exact fun _ t h => keeps_outside (hfinished t h)
    · exact fun _ t h => hfinished t h
  · intro hnot
    have hfinished : Finished newGroup quiet server p := by
      refine ⟨h, fun hmanaged => ?_⟩
      exact (Bool.not_eq_true _).mp fun hinit => hnot ⟨hmanaged.2, hinit⟩
    exact keeps_outside hfinished

theorem updateFinally_finishes (henv : quiet → env.Quiet)
    (h : OrderlyProcess newGroup quiet False server object p) :
    Keeps (updateFinally newGroup env server u object) (Finished newGroup quiet server) p := by
  cases object with
  | none => exact endWorld_finishes hnew henv h
  | some o =>
      rw [updateFinally, Keeps, wp_bind]
      apply wp_mono (wp_destroyGroup hnew henv h)
      · exact fun _ t h => endWorld_finishes hnew henv h
      · exact fun _ t h => ⟨h.1, fun hmanaged => absurd hmanaged.1 h.2⟩

/-- However an `update` ends, it is finished with its group. -/
theorem update_finishes (henv : quiet → env.Quiet)
    (h : OrderlyProcess newGroup quiet (Managed quiet server) server none p)
    (hreq : u.hasReqFunc = true) :
    Keeps (update newGroup env server u) (Finished newGroup quiet server) p := by
  rw [update, Keeps, wp_bind, assertion, wp_require_of hreq, wp_bind, wp_tryCatch]
  apply wp_mono (wp_makeRanksGroup hnew h)
  · intro object t hmade
    obtain ⟨h, hobject, hempty⟩ := hmade
    rw [wp_tryFinally]
    apply wp_mono (updateWith_keeps hnew hobject hempty h)
    · exact fun _ t h => updateFinally_finishes hnew henv h
    · exact fun _ t h => updateFinally_finishes hnew henv h
  · intro e t h
    rw [wp_bind]
    exact wp_mono (updateFinally_finishes hnew henv h) (fun _ _ h => h) fun _ _ h => h

/-- Between two calls no group is in use. -/
theorem perform_keeps (henv : quiet → env.Quiet) (operation : Operation)
    (h : OrderlyProcess newGroup quiet (Managed quiet server) server none p) :
    Keeps (perform newGroup env server operation)
      (OrderlyProcess newGroup quiet (Managed quiet server) server none) p := by
  cases operation with
  | initProcessGroup raises => exact initProcessGroup_keeps hnew h
  | gatherMetas raises => exact gatherMetas_keeps hnew h
  | update u =>
      by_cases hreq : u.hasReqFunc = true
      · apply wp_mono (update_finishes hnew henv h hreq)
        · exact fun _ _ h => h.untouched
        · exact fun _ _ h => h.untouched
      · rw [perform, update, Keeps, wp_bind, assertion, wp_require_of_not hreq]
        exact h
  | barrier => exact keeps_collective hnew (.barrier none) h trivial rfl fits_none
  | destroyProcessGroup =>
      exact wp_mono (keeps_destroyWorld hnew henv h) (fun _ _ h => h.1) fun _ _ h => h.1

end Server

/-! ## Runs -/

section Runs

variable {newGroup : Library → List Int → Method (Option CommGroup)} {quiet : Prop}
  {server : ParameterServer} {p : Process}

theorem orderly_of_run (hnew : MakesGroups newGroup)
    (h : (machine newGroup server).ReachableBy (fun _ agent => quiet → agent.1.Quiet) p) :
    OrderlyProcess newGroup quiet (Managed quiet server) server none p := by
  apply Machine.ReachableBy.invariant
    (I := OrderlyProcess newGroup quiet (Managed quiet server) server none) _ _ h
  · exact ⟨.nil, .start⟩
  · intro s agent t hs hquiet hstep
    obtain rfl := Option.some.inj hstep
    exact keeps_iff.mp (perform_keeps hnew hquiet agent.2 hs)

/-- Every call so far was given an object there is, was permitted, left no group in place, and
ran no collective on a communicator that was destroyed or whose world was. -/
def CallsSafe (newGroup : Library → List Int → Method (Option CommGroup)) (p : Process) : Prop :=
  ∀ before turn after, p.turns = before ++ turn :: after →
    ∃ s, (lifecycle newGroup).run .start before = some s ∧ s.Admits turn ∧ Permitted s turn ∧
      FitsGroup s.self (turn.library, turn.call) ∧
      TurnSafe s (History.next newGroup s turn) turn

theorem OrderlyProcess.callsSafe (hnew : MakesGroups newGroup) {fresh : Prop}
    (h : OrderlyProcess newGroup quiet fresh server none p) : CallsSafe newGroup p := by
  intro before turn after hturns
  have htrace := h.1
  rw [hturns] at htrace
  obtain ⟨s, t, hbefore, ⟨⟨hpermitted, hfits⟩, _⟩, hstep⟩ := htrace.split
  obtain ⟨hadmits, rfl⟩ := lifecycle_step_iff.mp hstep
  have hsafe := lifecycle_of_run hnew.creates (hbefore.mono fun _ _ h => h.1.1).reachableBy
  exact ⟨s, hbefore.run, hadmits, hpermitted, hfits, hsafe.2 turn _ hpermitted hstep⟩

/-- The calls lead to the backend that is there, which has its world communicator in place, no
communicator was destroyed twice, and every call was safe. -/
structure UsesSafely (newGroup : Library → List Int → Method (Option CommGroup)) (p : Process) :
    Prop where
  run : (lifecycle newGroup).run .start p.turns = some p.history
  calls : CallsSafe newGroup p
  once : ∀ i, p.history.ledger.destroyed i ≤ 1
  world : World p.history.self

theorem usesSafely_of_run (hnew : MakesGroups newGroup)
    (h : (machine newGroup server).Reachable p) : UsesSafely newGroup p := by
  have horderly := @orderly_of_run newGroup False server p hnew
    (h.reachableBy fun _ _ hfalse => hfalse.elim)
  exact ⟨horderly.1.run, horderly.callsSafe hnew, horderly.2.alive.sound.once,
    horderly.2.world⟩

end Runs

/-- Of both backends, over any sequence of calls of the server with whatever raises in them:
every call that the server makes of its backend is given a group object of the world that is
up, fits the group and runs on communicators that are there; no communicator is destroyed
twice, and between calls the world communicator is in place. -/
theorem server_uses_backend_safely (server : ParameterServer) (p : Process) :
    ((machine Nccl.newGroup server).Reachable p → UsesSafely Nccl.newGroup p) ∧
      ((machine Hccl.newGroup server).Reachable p → UsesSafely Hccl.newGroup p) :=
  ⟨usesSafely_of_run nccl_makesGroups, usesSafely_of_run hccl_makesGroups⟩

/-- A handle larger than all before. -/
def newHandle (s : History) : Int :=
  (s.ledger.resources.map fun r => r.handle.natAbs).foldr max 0 + 1

theorem newHandle_fresh (s : History) : s.ledger.Fresh (newHandle s) := by
  have hle : ∀ l : List Nat, ∀ n ∈ l, n ≤ l.foldr max 0 := by
    intro l
    induction l with
    | nil => exact fun n hn => absurd hn List.not_mem_nil
    | cons first rest ih =>
        intro n hn
        cases List.mem_cons.mp hn with
        | inl heq => exact heq ▸ Nat.le_max_left ..
        | inr hrest => exact Nat.le_trans (ih n hrest) (Nat.le_max_right ..)
  intro i _ r hr _ heq
  have hmem : r.handle.natAbs ∈ s.ledger.resources.map fun r => r.handle.natAbs :=
    List.mem_map_of_mem (List.mem_of_getElem? hr)
  have hr := hle _ _ hmem
  rw [heq, newHandle] at hr
  omega

/-- A library that does not raise. -/
def obliging : Environment where
  library p := ⟨fun _ => none, newHandle p.history, some (newHandle p.history)⟩
  worldComm p := newHandle_fresh p.history
  newComm p handle hhandle := by
    obtain rfl := Option.some.inj hhandle
    refine ⟨newHandle_fresh p.history, ?_⟩
    rw [newHandle]
    omega

/-- One tensor, on rank 0. -/
def oneTensor : GlobalMetas :=
  [(0, ⟨some "10.0.0.1:1", [⟨[⟨"w", .bfloat16, [4], 256⟩], 0, 256⟩], "mlx5_0"⟩)]

/-- An update of both ranks of two in which the last reply of the worker raises. -/
def failingUpdate : UpdateCall where
  hasReqFunc := true
  ranks := [1, 0]
  globalMetas := oneTensor
  localTopo := [("mlx5_0", [0, 1])]
  remoteTopo := [("mlx5_0", [0, 1])]
  supportsDeviceIpc := true
  supportsDeviceP2p := true
  hasP2pStore := true
  freeBytes := 4096
  maxBytes := 1024
  raises place := if place = .exchange .recvLast then some (.runtimeError "") else none
  replyIsError _ := false
  othersFailed _ := 0
  ends := by
    intro size disable h
    have hdetected : Update.detectBucketSize oneTensor 4096 1024 false = .ok (1024, false) := rfl
    obtain ⟨rfl, rfl⟩ := Prod.mk.inj (Except.ok.inj (hdetected.symm.trans h))
    decide

/-- Rank 0 of two, whose server manages its worlds. -/
def managingServer : ParameterServer := ⟨0, 2, true⟩

/-- Calls with a library that does not raise. -/
def onObliging (operations : List Operation) : List (Environment × Operation) :=
  operations.map fun operation => (obliging, operation)

/-- It gathers metas and updates both ranks. -/
def gatherAndUpdate : List (Environment × Operation) :=
  onObliging [.gatherMetas fun _ => none, .update failingUpdate]

/-- The ten calls of its backend are safe. -/
theorem server_uses_backend_safely_gatherAndUpdate :
    (∃ p, (machine Nccl.newGroup managingServer).Reachable p ∧ p.turns.length = 10 ∧
        UsesSafely Nccl.newGroup p) ∧
      (∃ p, (machine Hccl.newGroup managingServer).Reachable p ∧ p.turns.length = 10 ∧
        UsesSafely Hccl.newGroup p) := by
  obtain ⟨nccl, hnccl, hncclCalls⟩ :=
    @Machine.Reachable.of_run _ _ (machine Nccl.newGroup managingServer)
      (fun p => p.turns.length = 10) _ gatherAndUpdate (by decide +kernel)
  obtain ⟨hccl, hhccl, hhcclCalls⟩ :=
    @Machine.Reachable.of_run _ _ (machine Hccl.newGroup managingServer)
      (fun p => p.turns.length = 10) _ gatherAndUpdate (by decide +kernel)
  exact ⟨⟨nccl, hnccl, hncclCalls, (server_uses_backend_safely managingServer nccl).1 hnccl⟩,
    ⟨hccl, hhccl, hhcclCalls, (server_uses_backend_safely managingServer hccl).2 hhccl⟩⟩

/-! ## What is left behind -/

/-- Every communicator has been destroyed exactly once, but for that of the world that is
up. -/
def LeavesWorldOnly (s : History) : Prop :=
  ∀ i r, s.ledger.resources[i]? = some r → s.ledger.destroyed i = 1 ∨
    s.ledger.destroyed i = 0 ∧ OfWorld s r

/-- No world is up, and every communicator has been destroyed exactly once. -/
def LeavesNothing (s : History) : Prop :=
  s.self.initialized = false ∧ ∀ i < s.ledger.resources.length, s.ledger.destroyed i = 1

theorem Orderly.leavesWorldOnly {quiet fresh : Prop} {rank : Rank} {s : History}
    (h : Orderly quiet fresh rank none s) (hquiet : quiet) : LeavesWorldOnly s := by
  intro i r hr
  have honce := h.alive.sound.once i
  by_cases hlive : s.ledger.destroyed i = 0
  · cases h.left hquiet hr hlive with
    | inl hobject => cases hobject
    | inr hof => exact Or.inr ⟨hlive, hof⟩
  · exact Or.inl (by omega)

theorem LeavesWorldOnly.nothing {s : History} (h : LeavesWorldOnly s)
    (hdown : s.self.initialized = false) : LeavesNothing s := by
  refine ⟨hdown, fun i hi => ?_⟩
  cases h i _ (List.getElem?_eq_getElem hi) with
  | inl hdestroyed => exact hdestroyed
  | inr hleft => exact absurd (hdown.symm.trans hleft.2.1) Bool.false_ne_true

/-- Where nothing raises that is to destroy a communicator: between any two calls only the
world is left, and behind an `update` of a server that manages its worlds nothing is. -/
structure LeavesBehind (newGroup : Library → List Int → Method (Option CommGroup))
    (server : ParameterServer) (p : Process) : Prop where
  between : LeavesWorldOnly p.history
  behind : ∀ env u, env.Quiet → u.hasReqFunc = true → server.autoPg = true →
    LeavesNothing (after (update newGroup env server u) p).history

theorem leavesBehind_of_run {newGroup : Library → List Int → Method (Option CommGroup)}
    {server : ParameterServer} {p : Process} (hnew : MakesGroups newGroup)
    (h : (machine newGroup server).ReachableBy (fun _ agent => agent.1.Quiet) p) :
    LeavesBehind newGroup server p := by
  have horderly := @orderly_of_run newGroup True server p hnew
    (h.mono fun _ _ hquiet => fun _ => hquiet)
  refine ⟨horderly.2.leavesWorldOnly trivial, fun env u hquiet hreq hauto => ?_⟩
  have hfinished : Finished newGroup True server (after (update newGroup env server u) p) :=
    keeps_iff.mp (update_finishes hnew (fun _ => hquiet) horderly hreq)
  exact (hfinished.1.2.leavesWorldOnly trivial).nothing (hfinished.2 ⟨trivial, hauto⟩)

/-- Of both backends, over any sequence of calls of the server in which destroying a
communicator does not raise, with whatever else raises in them. -/
theorem server_leaves_nothing_behind (server : ParameterServer) (p : Process) :
    ((machine Nccl.newGroup server).ReachableBy (fun _ agent => agent.1.Quiet) p →
        LeavesBehind Nccl.newGroup server p) ∧
      ((machine Hccl.newGroup server).ReachableBy (fun _ agent => agent.1.Quiet) p →
        LeavesBehind Hccl.newGroup server p) :=
  ⟨leavesBehind_of_run nccl_makesGroups, leavesBehind_of_run hccl_makesGroups⟩

theorem obliging_quiet : obliging.Quiet := fun _ => rfl

theorem onObliging_quiet (operations : List Operation) :
    ∀ agent ∈ onObliging operations, agent.1.Quiet := by
  intro agent hagent
  obtain ⟨operation, _, rfl⟩ := List.mem_map.mp hagent
  exact obliging_quiet

/-- The failing update leaves nothing of the two communicators behind, and neither does
another. -/
theorem server_leaves_nothing_behind_gatherAndUpdate :
    (∃ p, (machine Nccl.newGroup managingServer).Reachable p ∧
        p.history.ledger.resources.length = 2 ∧ LeavesBehind Nccl.newGroup managingServer p) ∧
      (∃ p, (machine Hccl.newGroup managingServer).Reachable p ∧
        p.history.ledger.resources.length = 2 ∧
          LeavesBehind Hccl.newGroup managingServer p) := by
  obtain ⟨nccl, hnccl, hncclMade⟩ :=
    @Machine.exists_of_run _ _ (machine Nccl.newGroup managingServer)
      (fun p => p.history.ledger.resources.length = 2) _ gatherAndUpdate (by decide +kernel)
  obtain ⟨hccl, hhccl, hhcclMade⟩ :=
    @Machine.exists_of_run _ _ (machine Hccl.newGroup managingServer)
      (fun p => p.history.ledger.resources.length = 2) _ gatherAndUpdate (by decide +kernel)
  refine ⟨⟨nccl, Machine.steps_run hnccl, hncclMade, ?_⟩, hccl, Machine.steps_run hhccl,
    hhcclMade, ?_⟩
  · exact (server_leaves_nothing_behind managingServer nccl).1
      (Machine.ReachableBy.run (fun _ => onObliging_quiet _) .init hnccl)
  · exact (server_leaves_nothing_behind managingServer hccl).2
      (Machine.ReachableBy.run (fun _ => onObliging_quiet _) .init hhccl)

/-! ## The ids of the groups -/

/-- Every group was asked for with this id. -/
def PassesId (subcommId : Nat) (p : Process) : Prop :=
  ∀ before turn after ranks, p.turns = before ++ turn :: after → turn.call = .newGroup ranks →
    ∃ s, (lifecycle Hccl.newGroup).run .start before = some s ∧
      ∀ arguments ∈ Hccl.passed s.self ranks, arguments.subcommId = subcommId

/-- Where a server manages its worlds and nothing raises that is to destroy a communicator,
every rank asks for every group with the first id of its world: the ranks of a group agree on
its id, whatever groups they were members of before. -/
theorem server_passes_first_id (server : ParameterServer) (p : Process)
    (hauto : server.autoPg = true)
    (h : (machine Hccl.newGroup server).ReachableBy (fun _ agent => agent.1.Quiet) p) :
    PassesId 1 p := by
  have horderly := @orderly_of_run Hccl.newGroup True server p hccl_makesGroups
    (h.mono fun _ _ hquiet => fun _ => hquiet)
  intro before turn after ranks hturns hcall
  have htrace := horderly.1
  rw [hturns] at htrace
  obtain ⟨s, _, hbefore, ⟨_, hfirst⟩, _⟩ := htrace.split
  refine ⟨s, hbefore.run, fun arguments harguments => ?_⟩
  obtain ⟨hinit, c, hc, hid⟩ := Hccl.passed_subcommId harguments
  exact hid.trans (hfirst ⟨trivial, hauto⟩ ranks hcall hinit c hc)

/-- Two updates in a row, each of which makes a group. -/
def updateTwice : List (Environment × Operation) :=
  onObliging [.gatherMetas fun _ => none, .update failingUpdate, .update failingUpdate]

/-- They ask for their groups with the same id. -/
theorem server_passes_first_id_updateTwice :
    ∃ p, (machine Hccl.newGroup managingServer).Reachable p ∧
      p.history.ledger.resources.length = 4 ∧ PassesId 1 p := by
  obtain ⟨p, hrun, hmade⟩ :=
    @Machine.exists_of_run _ _ (machine Hccl.newGroup managingServer)
      (fun p => p.history.ledger.resources.length = 4) _ updateTwice (by decide +kernel)
  refine ⟨p, Machine.steps_run hrun, hmade, ?_⟩
  apply server_passes_first_id managingServer p rfl
  exact Machine.ReachableBy.run (fun _ => onObliging_quiet _) .init hrun

end CheckpointEngine.Server
