/-
  `Update.Resources`: what one call of `_update_per_bucket` in
  `checkpoint_engine/ps.py` acquires and releases, on one rank.

  `Update.System` takes the update up where the handle is sent.  Here the whole call is
  modelled for one rank, from its first assertion to its `finally`; what the other ranks
  and the worker answer is given, and whatever is called may raise.  A call that waits
  for ever does not exit, so every call made here returns or raises.
-/
import CheckpointEngine.Foundation.Command
import CheckpointEngine.Registry.ParameterServer
import CheckpointEngine.Update.Schedule

set_option autoImplicit false

namespace CheckpointEngine.Update

open CheckpointEngine.Foundation
open CheckpointEngine.Foundation.Command
open CheckpointEngine.Registry (P2PStore Tensor)

/-- The places where `_update_per_bucket` leaves the modelled code.  `i` is the outer loop
variable and `g` is `gidx`. -/
inductive Site where
  | firstBarrier | allocateH2d | allocateBuffer | export | makeSocket | bind | startThread
  | sendHandle | allocateRetCode
  | stage (i : Nat) | logTurn (g : Nat) | fill (g : Nat) | broadcast (g : Nat) | recvReply (g : Nat)
  | allReduce (g : Nat) | synchronize (g : Nat) | sendException (g : Nat) | sendMetadata (g : Nat)
  | recvLast | sendRelease | recvRelease | freeDevice | sendFinish | recvFinish
  | closingBarrier | emptyCache
  deriving DecidableEq, Repr

/-- The arguments, the fields read, and what the calls answer. -/
structure Exchange where
  rank : Rank
  /-- an empty list stands for None as well -/
  ranks : List Rank
  metasEmpty : Bool
  initialized : Bool
  supportsDeviceIpc : Bool
  supportsDeviceP2p : Bool
  /-- `_detect_bucket_size`, which also gives the size of the buffers -/
  disableH2dBuffer : Except PyError Bool
  /-- `_gen_h2d_buckets` -/
  buckets : Except PyError (List Planned)
  buffer : Tensor
  h2dBuffer : Tensor
  /-- the transfer engine -/
  engine : Registry.Backend
  raises : Site → Option PyError
  /-- the reply to the metadata or handle before turn `g` is an error -/
  replyIsError : Nat → Bool
  /-- what the other ranks contribute to `ret_code` in turn `g` -/
  othersFailed : Nat → Nat

/-- What the call acquires and releases, and the variables its loop decides by. -/
structure Held where
  /-- `_p2p_store` -/
  p2pStore : Option P2PStore
  /-- the socket is bound -/
  bound : Bool
  socketClosed : Bool
  threadStarted : Bool
  threadJoined : Bool
  gidx : Nat
  retCode : Nat

/-- At the start of a call. -/
def Held.start (p2pStore : Option P2PStore) : Held :=
  ⟨p2pStore, false, false, false, false, 0, 0⟩

/-- `p2p_ipc_buffer_name`. -/
def p2pIpcBufferName : String := "__ipc_buffer__"

/-- Neither the store nor the socket nor the thread is left behind. -/
structure Held.Clean (h : Held) : Prop where
  store : ∀ store, h.p2pStore = some store → store.namedTensors p2pIpcBufferName = none
  socket : h.bound = true → h.socketClosed = true
  thread : h.threadStarted = true → h.threadJoined = true

abbrev Call (α : Type) := EStateM PyError Held α

/-- What was computed, or what was raised instead. -/
def ofExcept {α : Type} (x : Except PyError α) : Call α :=
  match x with
  | .ok a => pure a
  | .error e => throw e

/-- `_p2p_store.register_named_tensors({p2p_ipc_buffer_name: tensor})`. -/
def registerIpcBuffer (x : Exchange) (tensor : Tensor) : Call Unit := do
  match (← get).p2pStore with
  | none => throw (.assertionError "p2p store is not initialized")
  | some store =>
      match store.registerNamedTensors x.engine [(p2pIpcBufferName, tensor)] with
      | .returned store => modify fun h => { h with p2pStore := some store }
      | .raised e store => do
          modify fun h => { h with p2pStore := some store }
          throw e

/-- `_p2p_store.unregister_named_tensors([p2p_ipc_buffer_name])`. -/
def unregisterIpcBuffer (x : Exchange) : Call Unit := do
  match (← get).p2pStore with
  | none => throw (.assertionError "p2p store is not initialized")
  | some store => do
      let store ← ofExcept (store.unregisterNamedTensors x.engine [p2pIpcBufferName])
      modify fun h => { h with p2pStore := some store }

/-! ## Before the loop -/

/-- The choice of the mode: whether this is a P2P update, or `none` where the rank takes no
part in it. -/
def chooseMode (x : Exchange) : Call (Option Bool) := do
  require (x.metasEmpty = false) (.assertionError "parameter metas is empty")
  require (x.initialized = true) (.assertionError "process group is not initialized")
  require (x.supportsDeviceIpc = true)
    (.runtimeError "weight update requires cross-process device-tensor IPC")
  if x.ranks = [] then
    return some false
  else
    require (x.supportsDeviceP2p = true) (.runtimeError "P2P weight update is not supported")
    require ((← get).p2pStore.isSome = true) (.assertionError "p2p store is not initialized")
    if x.rank ∈ x.ranks then
      attempt (x.raises .firstBarrier)
      return some true
    else
      return none

/-- What is planned and allocated: whether there is no h2d buffer, and the buckets. -/
def plan (x : Exchange) : Call (Bool × List Planned) := do
  let disableH2dBuffer ← ofExcept x.disableH2dBuffer
  let buckets ← ofExcept x.buckets
  if disableH2dBuffer = false then attempt (x.raises .allocateH2d)
  attempt (x.raises .allocateBuffer)
  return (disableH2dBuffer, buckets)

/-- The two calls of `_bind_zmq_socket` that may raise. -/
def bindSocket (x : Exchange) : Call Unit := do
  attempt (x.raises .makeSocket)
  attempt (x.raises .bind)
  modify fun h => { h with bound := true }

/-- From the export of the handle up to the `try`. -/
def exportAndBind (x : Exchange) : Call Unit := do
  attempt (x.raises .export)
  bindSocket x
  attempt (x.raises .startThread)
  modify fun h => { h with threadStarted := true }
  attempt (x.raises .sendHandle)
  attempt (x.raises .allocateRetCode)

/-- From the registration of the IPC buffer up to the `try`. -/
def acquire (x : Exchange) (p2pUpdate disableH2dBuffer : Bool) : Call Unit := do
  if p2pUpdate then registerIpcBuffer x (if disableH2dBuffer then x.buffer else x.h2dBuffer)
  exportAndBind x

/-! ## The `try` and its `finally` -/

/-- The body of the inner loop, for a receiver that has `bucket` at `i`. -/
def turnStep (x : Exchange) (p2pUpdate disableH2dBuffer : Bool) (buckets : List Planned) (i : Nat)
    (receiver : Rank) (bucket : H2DBucket) : Call Unit := do
  let g := (← get).gidx
  attempt (x.raises (.logTurn g))
  if receiver = x.rank then
    if disableH2dBuffer ∧ p2pUpdate then
      require (((receiverRankBuckets x.rank buckets)[i]?).map Prod.snd = some bucket)
        (.assertionError "")
    attempt (x.raises (.fill g))
  attempt (x.raises (.broadcast g))
  attempt (x.raises (.recvReply g))
  if x.replyIsError g then modify fun h => { h with retCode := 1 }
  attempt (x.raises (.allReduce g))
  modify fun h => { h with retCode := h.retCode + x.othersFailed g }
  attempt (x.raises (.synchronize g))
  if (← get).retCode ≠ 0 then
    attempt (x.raises (.sendException g))
    throw (.runtimeError "Failed to update weights due to remote errors")
  else
    attempt (x.raises (.sendMetadata g))
    modify fun h => { h with gidx := g + 1 }

/-- The body of the outer loop. -/
def rowStep (x : Exchange) (p2pUpdate disableH2dBuffer : Bool) (buckets : List Planned)
    (i : Nat) : Call Unit := do
  if i < (receiverRankBuckets x.rank buckets).length ∧ disableH2dBuffer = false then
    attempt (x.raises (.stage i))
  (bucketsByReceiverRank buckets).forM fun (receiver, own) =>
    match own[i]? with
    | none => pure ()
    | some bucket => turnStep x p2pUpdate disableH2dBuffer buckets i receiver bucket

/-- The body of the `try`. -/
def exchangeBuckets (x : Exchange) (p2pUpdate disableH2dBuffer : Bool)
    (buckets : List Planned) : Call Unit := do
  (List.range (maxLen buckets)).forM (rowStep x p2pUpdate disableH2dBuffer buckets)
  attempt (x.raises .recvLast)
  attempt (x.raises .sendRelease)
  attempt (x.raises .recvRelease)
  attempt (x.raises .freeDevice)
  attempt (x.raises .sendFinish)
  attempt (x.raises .recvFinish)

/-- The `finally`. -/
def release (x : Exchange) (p2pUpdate : Bool) : Call Unit := do
  modify fun h => { h with threadJoined := true }
  attempt (x.raises .closingBarrier)
  modify fun h => { h with socketClosed := true }
  if p2pUpdate then unregisterIpcBuffer x
  attempt (x.raises .emptyCache)

/-- `_update_per_bucket`. -/
def updatePerBucket (x : Exchange) : Call Unit := do
  match ← chooseMode x with
  | none => return ()
  | some p2pUpdate => do
      let (disableH2dBuffer, buckets) ← plan x
      acquire x p2pUpdate disableH2dBuffer
      tryFinally (exchangeBuckets x p2pUpdate disableH2dBuffer buckets) (release x p2pUpdate)

end CheckpointEngine.Update
