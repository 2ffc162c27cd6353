/-
  `Server.ProcessGroups`: the calls of `checkpoint_engine/ps.py` that go to
  `checkpoint_engine.distributed`, on one rank.

  `init_process_group`, `gather_metas` and `update` are modelled from their first line to
  their last, for a server that runs one of the two vLLM backends.  Each `dist` call goes
  to the model of the backend, which may raise at any of its sites, and is noted; what else
  they call raises as it is told.  `Update.Resources` has the store, the socket and the
  thread of `_update_per_bucket`, which no `dist` call depends on.
-/
import CheckpointEngine.Distributed.Lifecycle
import CheckpointEngine.Plan.Receivers
import CheckpointEngine.Update.BucketSize
import CheckpointEngine.Update.Resources

set_option autoImplicit false

namespace CheckpointEngine.Server

open CheckpointEngine.Foundation
open CheckpointEngine.Foundation.Command
open CheckpointEngine.Distributed (BackendError CommGroup History Library Method)
open CheckpointEngine.Plan (Topology genH2dBuckets)
open CheckpointEngine.Update (Planned bucketsByReceiverRank detectBucketSize maxLen
  receiverRankBuckets)

/-- What a call of the server raises. -/
inductive ServerError where
  | backend (e : BackendError)
  | python (e : PyError)
  deriving DecidableEq, Repr

/-- A group object that `new_group` has returned, with its number in the history. -/
structure GroupObject where
  number : Nat
  group : CommGroup
  deriving DecidableEq, Repr

/-- A process: its backend with the communicators made so far, the `dist` calls it has made,
and the variables of the server that its calls are decided by. -/
structure Process where
  history : History
  turns : List Distributed.Turn
  /-- `_store_counter` -/
  storeCounter : Nat
  /-- the stores given to `dist.init_process_group` -/
  stores : List String
  gidx : Nat
  retCode : Nat

def Process.start : Process := ⟨.start, [], 0, [], 0, 0⟩

/-- What the communication library answers.  It may look at all that has happened, and makes
communicators with handles that no communicator has which is left; the handle of a group is
not null. -/
structure Environment where
  library : Process → Library
  worldComm : ∀ p : Process, p.history.ledger.Fresh (library p).worldComm
  newComm : ∀ p : Process, ∀ handle ∈ (library p).newComm,
    p.history.ledger.Fresh handle ∧ handle ≠ 0

/-- The fields of a `ParameterServer` that do not change. -/
structure ParameterServer where
  rank : Rank
  worldSize : Nat
  autoPg : Bool

/-- The places where the server leaves the modelled code otherwise than through `dist`. -/
inductive Place where
  | makeStore | collectMetas | recordMetas
  | buildIpcHandler | measureMemory | readReduced | registerIpcBuffer
  | exchange (site : Update.Site) | unregisterIpcBuffer | closeIpcHandler
  | storeBasedBarrier | emptyCache
  deriving DecidableEq, Repr

/-- The arguments of an `update`, the fields it reads, and what its calls answer.  A plan whose
loop does not end is not answered. -/
structure UpdateCall where
  hasReqFunc : Bool
  /-- an empty list stands for None as well -/
  ranks : List Rank
  globalMetas : GlobalMetas
  localTopo : Topology
  remoteTopo : Topology
  supportsDeviceIpc : Bool
  supportsDeviceP2p : Bool
  hasP2pStore : Bool
  /-- the free bytes after the `all_reduce` -/
  freeBytes : Nat
  maxBytes : Nat
  raises : Place → Option PyError
  /-- the reply to the metadata or handle before turn `g` is an error -/
  replyIsError : Nat → Bool
  /-- what the other ranks contribute to `ret_code` in turn `g` -/
  othersFailed : Nat → Nat
  ends : ∀ size disable, detectBucketSize globalMetas freeBytes maxBytes false =
    .ok (size, disable) → genH2dBuckets globalMetas size localTopo remoteTopo ranks ≠ .ok none

abbrev Command (α : Type) := EStateM ServerError Process α

/-- What is called outside of `dist`. -/
def outside (raises : Place → Option PyError) (place : Place) : Command Unit :=
  attempt ((raises place).map .python)

def assertion (p : Prop) [Decidable p] (message : String) : Command Unit :=
  require p (.python (.assertionError message))

/-- What was computed, or what was raised instead. -/
def ofExcept {α : Type} : Except PyError α → Command α
  | .ok a => pure a
  | .error e => throw (.python e)

section Dist

variable (newGroup : Library → List Int → Method (Option CommGroup)) (env : Environment)

/-- The call, with what the library answers to it. -/
def Environment.turn (p : Process) (call : Distributed.Call) (object : Option Nat) :
    Distributed.Turn :=
  ⟨env.library p, call, object⟩

/-- The process behind a `dist` call. -/
def Process.called (p : Process) (turn : Distributed.Turn) : Process :=
  { p with history := History.next newGroup p.history turn, turns := p.turns ++ [turn] }

/-- A `dist` call, with the group object that it is given. -/
def dist (call : Distributed.Call) (object : Option GroupObject) : Command Unit := fun p =>
  let turn := env.turn p call (object.map GroupObject.number)
  match Distributed.perform newGroup turn.library call p.history.self with
  | .ok _ _ => .ok () (p.called newGroup turn)
  | .error e _ => .error (.backend e) (p.called newGroup turn)

/-- `dist.is_initialized()`. -/
def distIsInitialized : Command Bool := do
  return (← get).history.self.initialized

/-- `dist.new_group(ranks)`, with what it returns. -/
def distNewGroup (ranks : List Rank) : Command (Option GroupObject) := do
  let p ← get
  let ranks : List Int := ranks.map fun (rank : Rank) => (rank : Int)
  dist newGroup env (.newGroup ranks) none
  let group := History.returned (newGroup (env.library p) ranks) p.history.self
  return group.map fun group => ⟨p.history.ledger.resources.length, group⟩

end Dist

section Server

variable (newGroup : Library → List Int → Method (Option CommGroup)) (env : Environment)
  (server : ParameterServer)

/-- `f"prefix-{self._store_counter}"`. -/
def storeName (storeCounter : Nat) : String := "prefix-" ++ toString storeCounter

/-- `init_process_group`. -/
def initProcessGroup (raises : Place → Option PyError) : Command Unit := do
  modify fun p => { p with storeCounter := p.storeCounter + 1 }
  outside raises .makeStore
  modify fun p => { p with stores := p.stores ++ [storeName p.storeCounter] }
  dist newGroup env (.initProcessGroup server.rank server.worldSize) none

/-- `if self._auto_pg and not dist.is_initialized(): self.init_process_group(...)`. -/
def autoInit (raises : Place → Option PyError) : Command Unit := do
  let initialized ← distIsInitialized
  if server.autoPg = true ∧ initialized = false then
    initProcessGroup newGroup env server raises

/-- `gather_metas`. -/
def gatherMetas (raises : Place → Option PyError) : Command Unit := do
  autoInit newGroup env server raises
  let initialized ← distIsInitialized
  assertion (initialized = true) "process group is not initialized"
  outside raises .collectMetas
  dist newGroup env (.allGatherObject none) none
  outside raises .recordMetas

/-! ## `_update_per_bucket` -/

/-- The choice of the mode: whether this is a P2P update, or `none` where the rank takes no
part in it. -/
def chooseMode (u : UpdateCall) (ranksGroup : Option GroupObject) : Command (Option Bool) := do
  assertion (u.globalMetas ≠ []) "parameter metas is empty"
  let initialized ← distIsInitialized
  assertion (initialized = true) "process group is not initialized"
  require (u.supportsDeviceIpc = true)
    (.python (.runtimeError "weight update requires cross-process device-tensor IPC"))
  if u.ranks = [] then
    return some false
  else
    require (u.supportsDeviceP2p = true)
      (.python (.runtimeError "P2P weight update is not supported"))
    assertion (u.hasP2pStore = true) "p2p store is not initialized"
    if server.rank ∈ u.ranks then
      -- first execute a barrier to avoid subsequent device oom
      dist newGroup env (.barrier (ranksGroup.map GroupObject.group)) ranksGroup
      return some true
    else
      return none

/-- `_gen_h2d_buckets`, where its loop ends. -/
def planned (u : UpdateCall) (bucketSize : Nat) : Command (List Planned) :=
  match genH2dBuckets u.globalMetas bucketSize u.localTopo u.remoteTopo u.ranks with
  | .ok (some buckets) => pure buckets
  | .ok none => pure []
  | .error e => throw (.python e)

/-- `_detect_bucket_size` and `_gen_h2d_buckets`: whether there is no h2d buffer, and the
buckets. -/
def plan (u : UpdateCall) (ranksGroup : Option GroupObject) :
    Command (Bool × List Planned) := do
  outside u.raises .measureMemory
  dist newGroup env (.allReduce (ranksGroup.map GroupObject.group)) ranksGroup
  outside u.raises .readReduced
  let (bucketSize, disableH2dBuffer) ←
    ofExcept (detectBucketSize u.globalMetas u.freeBytes u.maxBytes false)
  let buckets ← planned u bucketSize
  return (disableH2dBuffer, buckets)

/-- From the allocation of the buffers up to the `try`. -/
def acquire (u : UpdateCall) (p2pUpdate disableH2dBuffer : Bool) : Command Unit := do
  if disableH2dBuffer = false then outside u.raises (.exchange .allocateH2d)
  outside u.raises (.exchange .allocateBuffer)
  if p2pUpdate then outside u.raises .registerIpcBuffer
  outside u.raises (.exchange .export)
  outside u.raises (.exchange .makeSocket)
  outside u.raises (.exchange .bind)
  outside u.raises (.exchange .startThread)
  outside u.raises (.exchange .sendHandle)
  modify fun p => { p with gidx := 0, retCode := 0 }
  outside u.raises (.exchange .allocateRetCode)

/-- The receiver fills its part of the buffer. -/
def fillBuffer (u : UpdateCall) (p2pUpdate disableH2dBuffer : Bool) (buckets : List Planned)
    (i g : Nat) (receiver : Rank) (bucket : H2DBucket) : Command Unit := do
  if receiver = server.rank then
    if disableH2dBuffer ∧ p2pUpdate then
      assertion (((receiverRankBuckets server.rank buckets)[i]?).map Prod.snd = some bucket) ""
    outside u.raises (.exchange (.fill g))

/-- The reply of the worker. -/
def recvReply (u : UpdateCall) (g : Nat) : Command Unit := do
  outside u.raises (.exchange (.recvReply g))
  if u.replyIsError g then modify fun p => { p with retCode := 1 }

/-- What is sent to the worker, behind the `all_reduce`. -/
def answerWorker (u : UpdateCall) (g : Nat) : Command Unit := do
  modify fun p => { p with retCode := p.retCode + u.othersFailed g }
  outside u.raises (.exchange (.synchronize g))
  if (← get).retCode ≠ 0 then
    outside u.raises (.exchange (.sendException g))
    throw (.python (.runtimeError "Failed to update weights due to remote errors"))
  else
    outside u.raises (.exchange (.sendMetadata g))
    modify fun p => { p with gidx := g + 1 }

/-- The body of the inner loop, for a receiver that has `bucket` at `i`. -/
def turnStep (u : UpdateCall) (ranksGroup : Option GroupObject)
    (p2pUpdate disableH2dBuffer : Bool) (buckets : List Planned) (i : Nat) (receiver : Rank)
    (bucket : H2DBucket) : Command Unit := do
  let g := (← get).gidx
  outside u.raises (.exchange (.logTurn g))
  fillBuffer server u p2pUpdate disableH2dBuffer buckets i g receiver bucket
  dist newGroup env
    (.broadcast (some (receiver : Int)) (ranksGroup.map GroupObject.group)) ranksGroup
  recvReply u g
  dist newGroup env (.allReduce (ranksGroup.map GroupObject.group)) ranksGroup
  answerWorker u g

/-- The rank reads its bucket of the row ahead, where it has an h2d buffer. -/
def stageBucket (u : UpdateCall) (disableH2dBuffer : Bool) (buckets : List Planned) (i : Nat) :
    Command Unit := do
  if i < (receiverRankBuckets server.rank buckets).length ∧ disableH2dBuffer = false then
    outside u.raises (.exchange (.stage i))

/-- The body of the outer loop. -/
def rowStep (u : UpdateCall) (ranksGroup : Option GroupObject)
    (p2pUpdate disableH2dBuffer : Bool) (buckets : List Planned) (i : Nat) :
    Command Unit := do
  stageBucket server u disableH2dBuffer buckets i
  (bucketsByReceiverRank buckets).forM fun (receiver, own) =>
    match own[i]? with
    | none => pure ()
    | some bucket =>
        turnStep newGroup env server u ranksGroup p2pUpdate disableH2dBuffer buckets i receiver
          bucket

/-- The body of the `try`. -/
def exchangeBuckets (u : UpdateCall) (ranksGroup : Option GroupObject)
    (p2pUpdate disableH2dBuffer : Bool) (buckets : List Planned) : Command Unit := do
  (List.range (maxLen buckets)).forM
    (rowStep newGroup env server u ranksGroup p2pUpdate disableH2dBuffer buckets)
  outside u.raises (.exchange .recvLast)
  outside u.raises (.exchange .sendRelease)
  outside u.raises (.exchange .recvRelease)
  outside u.raises (.exchange .freeDevice)
  outside u.raises (.exchange .sendFinish)
  outside u.raises (.exchange .recvFinish)

/-- The `finally`. -/
def release (u : UpdateCall) (ranksGroup : Option GroupObject) (p2pUpdate : Bool) :
    Command Unit := do
  dist newGroup env (.barrier (ranksGroup.map GroupObject.group)) ranksGroup
  if p2pUpdate then outside u.raises .unregisterIpcBuffer
  outside u.raises (.exchange .emptyCache)

/-- `_update_per_bucket`. -/
def updatePerBucket (u : UpdateCall) (ranksGroup : Option GroupObject) : Command Unit := do
  match ← chooseMode newGroup env server u ranksGroup with
  | none => return ()
  | some p2pUpdate => do
      let (disableH2dBuffer, buckets) ← plan newGroup env u ranksGroup
      acquire u p2pUpdate disableH2dBuffer
      tryFinally
        (exchangeBuckets newGroup env server u ranksGroup p2pUpdate disableH2dBuffer buckets)
        (release newGroup env u ranksGroup p2pUpdate)

/-! ## `update` -/

/-- The first two statements of its `try`: the group, where there are ranks.  `new_group` sorts
`ranks` in place, on whose order nothing depends. -/
def makeRanksGroup (u : UpdateCall) : Command (Option GroupObject) := do
  autoInit newGroup env server u.raises
  if u.ranks = [] then return none else distNewGroup newGroup env u.ranks

/-- The rest of its `try`. -/
def updateWith (u : UpdateCall) (ranksGroup : Option GroupObject) : Command Unit := do
  outside u.raises .buildIpcHandler
  tryFinally (updatePerBucket newGroup env server u ranksGroup)
    (outside u.raises .closeIpcHandler)
  outside u.raises .storeBasedBarrier

/-- Its `finally`. -/
def updateFinally (u : UpdateCall) (ranksGroup : Option GroupObject) : Command Unit := do
  match ranksGroup with
  | none => pure ()
  | some o => dist newGroup env (.destroyProcessGroup (some o.group)) (some o)
  let initialized ← distIsInitialized
  if server.autoPg = true ∧ initialized = true then
    dist newGroup env (.destroyProcessGroup none) none
  outside u.raises .emptyCache

/-- `update`.  Its `except` raises again what it has caught. -/
def update (u : UpdateCall) : Command Unit := do
  assertion (u.hasReqFunc = true) "req_func is required"
  -- `ranks_group` is still None where one of the first statements raises
  let ranksGroup ← tryCatch (makeRanksGroup newGroup env server u) fun e => do
    updateFinally newGroup env server u none
    throw e
  tryFinally (updateWith newGroup env server u ranksGroup)
    (updateFinally newGroup env server u ranksGroup)

/-! ## Runs -/

/-- What a script calls: the server, or `dist` itself. -/
inductive Operation where
  | initProcessGroup (raises : Place → Option PyError)
  | gatherMetas (raises : Place → Option PyError)
  | update (u : UpdateCall)
  | barrier
  | destroyProcessGroup

/-- A call, in full. -/
def perform : Operation → Command Unit
  | .initProcessGroup raises => initProcessGroup newGroup env server raises
  | .gatherMetas raises => gatherMetas newGroup env server raises
  | .update u => update newGroup env server u
  | .barrier => dist newGroup env (.barrier none) none
  | .destroyProcessGroup => dist newGroup env (.destroyProcessGroup none) none

/-- A script calls its server as it likes. -/
def machine : Machine Process (Environment × Operation) where
  init := .start
  step p agent := some (after (perform newGroup agent.1 server agent.2) p)

end Server

end CheckpointEngine.Server
