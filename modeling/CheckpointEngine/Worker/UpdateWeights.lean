/-
  `Worker.UpdateWeights`: `update_weights_from_ipc` of `checkpoint_engine/worker.py`.

  The worker is given the messages the server sends, one after the other; where they
  end, it waits in `recv_pyobj` and does not exit.  What is called outside the function
  raises as it is told, at any place.  Exceptions are instances of `Exception`.
-/
import CheckpointEngine.Worker.ExtractWeights

set_option autoImplicit false

namespace CheckpointEngine.Worker

open CheckpointEngine.Foundation
open CheckpointEngine.Foundation.Command

/-! ## Messages, replies and events -/

/-- What `recv_pyobj` returns in the loop. -/
inductive Payload where
  | metadata (items : List MetadataItem)
  | exception (text : String)
  | none
  | other
  deriving DecidableEq, Repr

/-- `b""`, or the text of a traceback. -/
inductive Reply where
  | ok
  | error
  deriving DecidableEq, Repr

/-- What the function does, as seen from outside. -/
inductive Event where
  | recv (payload : Payload)
  /-- slices of the shared buffer are taken -/
  | extract
  | run (weights : List WeightView)
  | reply (reply : Reply)
  | detach
  | postHook
  | closeSocket
  deriving DecidableEq, Repr

/-- The places in the loop where one message makes the worker leave the modelled code. -/
inductive TurnSite where
  | recv | run | synchronize | send | sendString
  | releaseSynchronize | ipcCollect | emptyCache | postHook
  deriving DecidableEq, Repr

/-- A message, and what is answered to the worker while it handles it. -/
structure Turn where
  payload : Payload
  raises : TurnSite → Option WorkerError

/-- The places outside the loop where the worker leaves the modelled code. -/
inductive Site where
  | recvHandle | send | sendString | recvAck | collect
  deriving DecidableEq, Repr

/-- What is answered to the worker outside the loop. -/
structure Answers where
  runtime : Runtime
  raises : Site → Option WorkerError
  /-- the server acknowledges the text of an exception -/
  ackArrives : Bool
  hasPostHook : Bool

/-- The local variables, and what has been done. -/
structure Session where
  ipcHandler : Option IPCHandler
  /-- the size of `buffer`, while it is not None -/
  buffer : Option Nat
  released : Bool
  socketClosed : Bool
  events : List Event
  deriving DecidableEq, Repr

/-- Behind `socket.connect(zmq_handle)`. -/
def Session.new : Session := ⟨none, none, false, false, []⟩

abbrev Step (α : Type) := EStateM WorkerError Session α

/-- How the function ends, if it does not raise. -/
inductive Ending where
  | returned
  | waiting
  deriving DecidableEq, Repr

def record (event : Event) : Step Unit :=
  modify fun s => { s with events := s.events ++ [event] }

/-- `ipc_handler.detach()`, if there is a handler. -/
def detach (answers : Answers) : Step Unit := do
  if (← get).ipcHandler.isSome then
    modify fun s =>
      { s with ipcHandler := s.ipcHandler.map fun handler => handler.detach answers.runtime }
    record .detach

/-! ## The handshake -/

/-- A call on the handler. -/
def onHandler {α : Type} (handler : IPCHandler) (call : EStateM WorkerError IPCHandler α) :
    Step α := fun s =>
  match call handler with
  | .ok a handler' => .ok a { s with ipcHandler := some handler' }
  | .error e handler' => .error e { s with ipcHandler := some handler' }

/-- The first `try`. -/
def handshake (answers : Answers) (handle : Handle) : Step Unit := do
  attempt (answers.raises .recvHandle)
  let buffer ← onHandler (ipcHandlerForHandle handle) (attach answers.runtime handle)
  modify fun s => { s with buffer := some buffer }
  require (answers.runtime.dtype = .uint8) (.assertionError "")
  attempt (answers.raises .send)
  record (.reply .ok)

/-- The handshake with its `except`; whether the worker goes on, or waits for an
acknowledgement that does not come. -/
def greet (answers : Answers) (handle : Handle) : Step Bool := do
  try
    handshake answers handle
    pure true
  catch e =>
    attempt (answers.raises .sendString)
    record (.reply .error)
    if answers.ackArrives then
      attempt (answers.raises .recvAck)
      throw e
    else
      pure false

/-! ## The loop -/

/-- `_extract_weights(payload, buffer)`. -/
def extract (payload : List MetadataItem) : Step (List WeightView) := do
  match (← get).buffer with
  | none => throw (.assertionError "")
  | some nbytes => do
      record .extract
      match extractWeights nbytes payload with
      | .ok weights => return weights
      | .error e => throw e

/-- The branch of a metadata list. -/
def updateStep (turn : Turn) (items : List MetadataItem) : Step Unit := do
  try
    let weights ← extract items
    record (.run weights)
    attempt (turn.raises .run)
    attempt (turn.raises .synchronize)
    attempt (turn.raises .send)
    record (.reply .ok)
  catch _ =>
    attempt (turn.raises .sendString)
    record (.reply .error)

/-- The branch of the first None. -/
def releaseStep (answers : Answers) (turn : Turn) : Step Unit := do
  attempt (turn.raises .synchronize)
  modify fun s => { s with released := true, buffer := none }
  detach answers
  attempt (turn.raises .ipcCollect)
  attempt (turn.raises .emptyCache)
  attempt (turn.raises .releaseSynchronize)
  attempt (turn.raises .send)
  record (.reply .ok)

/-- The branch behind the release. -/
def finishStep (answers : Answers) (turn : Turn) : Step Unit := do
  require (turn.payload = .none)
    (.assertionError "Should not receive any payload after released")
  if answers.hasPostHook then
    record .postHook
    attempt (turn.raises .postHook)
  attempt (turn.raises .synchronize)
  attempt (turn.raises .send)
  record (.reply .ok)

/-- One pass of the loop; whether there is another one. -/
def serveTurn (answers : Answers) (turn : Turn) : Step Bool := do
  attempt (turn.raises .recv)
  record (.recv turn.payload)
  if (← get).released then
    finishStep answers turn
    return false
  else
    match turn.payload with
    | .none => releaseStep answers turn; return true
    | .metadata items => updateStep turn items; return true
    | .exception text => throw (.received text)
    | .other => throw (.typeError "Unexpected payload type")

/-- `while True`, for the messages that come. -/
def serve (answers : Answers) : List Turn → Step Ending
  | [] => return .waiting
  | turn :: rest => do
      if ← serveTurn answers turn then serve answers rest else return .returned

/-- The `finally` behind the loop. -/
def cleanUp (answers : Answers) : Step Unit := do
  modify fun s => { s with socketClosed := true }
  record .closeSocket
  modify fun s => { s with buffer := none }
  detach answers
  attempt (answers.raises .collect)

/-- The second `try`.  A worker that waits does not come to its `finally`. -/
def serveAndCleanUp (answers : Answers) (turns : List Turn) : Step Ending := do
  let ending ←
    try serve answers turns
    catch e =>
      cleanUp answers
      throw e
  if ending = .waiting then
    return .waiting
  else
    cleanUp answers
    return .returned

/-- `update_weights_from_ipc`. -/
def updateWeightsFromIpc (answers : Answers) (handle : Handle) (turns : List Turn) :
    Step Ending := do
  if ← greet answers handle then serveAndCleanUp answers turns else return .waiting

end CheckpointEngine.Worker
