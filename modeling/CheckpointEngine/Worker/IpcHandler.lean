/-
  `Worker.IpcHandler`: the IPC handlers of `checkpoint_engine/ipc_handler.py`.

  A handle opened by `xpu_ipc.open_handle` is a mapping that `close_handle` takes down
  again.  `torch` maps and unmaps what a reduced tensor refers to by itself, so the
  CUDA and NPU handler has nothing to close.
-/
import CheckpointEngine.DataTypes
import CheckpointEngine.Foundation.Command

set_option autoImplicit false

namespace CheckpointEngine.Worker

open CheckpointEngine.Foundation
open CheckpointEngine.Foundation.Command

/-- An exception: of the modelled code, received from the server, or of code outside. -/
inductive WorkerError where
  | assertionError (message : String)
  | keyError (key : String)
  | typeError (message : String)
  | attributeError (name : String)
  | received (text : String)
  | outside (text : String)
  deriving DecidableEq, Repr

/-- What the server sends first. -/
inductive Handle where
  /-- a tuple, from `reduce_tensor` -/
  | reduced (nbytes : Nat)
  /-- a dict with the kind `xpu_sycl`, and the entries it has besides -/
  | tagged (handleBytes : Option Nat) (nbytes : Option Nat)
  | other
  deriving DecidableEq, Repr

/-- The consumer's side of `XpuIPCHandler`, with what it has opened and closed so far. -/
structure XpuIPCHandler where
  openedPtr : Option Nat
  opened : List Nat
  closed : List Nat
  deriving DecidableEq, Repr

/-- `XpuIPCHandler()`. -/
def XpuIPCHandler.new : XpuIPCHandler := ⟨none, [], []⟩

inductive IPCHandler where
  | torch
  | xpu (handler : XpuIPCHandler)
  deriving DecidableEq, Repr

/-- `_ipc_handler_for_handle`. -/
def ipcHandlerForHandle : Handle → IPCHandler
  | .tagged _ _ => .xpu .new
  | .reduced _ | .other => .torch

/-- The places where attaching and detaching leave the modelled code. -/
inductive HandlerSite where
  | rebuildIpc
  | importXpuIpc | openHandle | wrapTensor
  | xpuSynchronize | closeHandle
  deriving DecidableEq, Repr

/-- What the runtime answers to a handler. -/
structure Runtime where
  raises : HandlerSite → Option WorkerError
  /-- where `open_handle` maps the handle -/
  ptr : Nat
  /-- the element type of the tensor over the mapping -/
  dtype : DType

/-- `attach` of `TorchIPCHandler`; the size of the buffer. -/
def attachTorch (runtime : Runtime) : Handle → EStateM WorkerError IPCHandler Nat
  | .reduced nbytes => do
      attempt (runtime.raises .rebuildIpc)
      require (runtime.dtype = .uint8) (.assertionError "")
      return nbytes
  | .tagged _ _ | .other => throw (.assertionError "expected reduce_tensor tuple")

/-- `handle[key]`. -/
def entry {σ : Type} (key : String) : Option Nat → EStateM WorkerError σ Nat
  | some value => return value
  | none => throw (.keyError key)

/-- `attach` of `XpuIPCHandler`. -/
def attachXpu (runtime : Runtime) : Handle → EStateM WorkerError IPCHandler Nat
  | .tagged handleBytes nbytes => do
      attempt (runtime.raises .importXpuIpc)
      let _ ← entry "handle_bytes" handleBytes
      attempt (runtime.raises .openHandle)
      modify fun
        | .xpu self => .xpu
            { self with openedPtr := some runtime.ptr, opened := self.opened ++ [runtime.ptr] }
        | .torch => .torch
      let nbytes ← entry "nbytes" nbytes
      attempt (runtime.raises .wrapTensor)
      require (runtime.dtype = .uint8) (.assertionError "")
      return nbytes
  | .reduced _ | .other => throw (.assertionError "expected xpu_sycl handle dict")

/-- `attach`. -/
def attach (runtime : Runtime) (handle : Handle) : EStateM WorkerError IPCHandler Nat := do
  match ← get with
  | .torch => attachTorch runtime handle
  | .xpu _ => attachXpu runtime handle

/-- `detach` of the consumer.  An exception of the synchronization or of the closing is
logged and the pointer forgotten. -/
def IPCHandler.detach (runtime : Runtime) : IPCHandler → IPCHandler
  | .torch => .torch
  | .xpu self =>
      match self.openedPtr with
      | none => .xpu self
      | some ptr =>
          if runtime.raises .xpuSynchronize = none ∧ runtime.raises .closeHandle = none then
            .xpu { self with openedPtr := none, closed := self.closed ++ [ptr] }
          else
            .xpu { self with openedPtr := none }

/-- Every mapping the handler has opened has been closed exactly once. -/
def IPCHandler.Closed : IPCHandler → Prop
  | .torch => True
  | .xpu self => self.closed = self.opened

end CheckpointEngine.Worker
