/-
  `Registry.ParameterServer`: registering and unregistering checkpoints, from
  `checkpoint_engine/ps.py` and `checkpoint_engine/p2p_store.py`.

  A call that raises leaves the state it has reached, so the functions give both the
  exception and the state.  Those that change nothing before they raise give one of
  the two.  A dictionary is the partial function that looks a key up.
-/
import CheckpointEngine.Registry.Pinning
import CheckpointEngine.Foundation.Machine
import Mathlib.Logic.Function.Basic

set_option autoImplicit false

namespace CheckpointEngine.Registry

open CheckpointEngine.Foundation

/-- What the host, the transfer engine and the CUDA runtime answer during a call. -/
structure Backend (Size : Type := Nat) [Add Size] where
  host : Host Size
  supportsInplacePin : Bool
  /-- `batch_register_memory` returns 0 for these addresses -/
  registers : List Nat → Bool
  /-- `batch_unregister_memory` returns 0 for these addresses -/
  unregisters : List Nat → Bool
  /-- what `_unpin` raises for a buffer -/
  unpinRaises : Tensor → Option PyError

variable {Size : Type} [OfNat Size 0] [NatCast Size] [Add Size] [LinearOrder Size]
  [ToString Size]

/-! ## The P2P store -/

/-- `P2PStore`: its `named_tensors`, and the addresses registered with its engine. -/
structure P2PStore where
  namedTensors : String → Option Tensor
  registered : List Nat

/-- `register_named_tensors`: the names are entered before the engine is asked. -/
def P2PStore.registerNamedTensors (backend : Backend Size) (store : P2PStore)
    (tensors : List (String × Tensor)) : Outcome PyError P2PStore :=
  let addresses := tensors.map (·.2.ptr)
  let updated := tensors.foldl
    (fun named (name, tensor) => Function.update named name (some tensor)) store.namedTensors
  if backend.registers addresses then
    .returned ⟨updated, store.registered ++ addresses⟩
  else
    .raised (.assertionError "") ⟨updated, store.registered⟩

/-- `[self.named_tensors[name].data_ptr() for name in names]`. -/
def P2PStore.addresses (store : P2PStore) : List String → Except PyError (List Nat)
  | [] => .ok []
  | name :: rest =>
      match store.namedTensors name with
      | none => .error (.keyError name)
      | some tensor => do
          let others ← store.addresses rest
          return tensor.ptr :: others

/-- `unregister_named_tensors`, for distinct names. -/
def P2PStore.unregisterNamedTensors (backend : Backend Size) (store : P2PStore)
    (names : List String) : Except PyError P2PStore := do
  let addresses ← store.addresses names
  if backend.unregisters addresses then
    return ⟨fun name => if name ∈ names then none else store.namedTensors name,
      store.registered.filter (· ∉ addresses)⟩
  else
    .error (.assertionError "")

/-! ## The parameter server -/

/-- `shared_memory_pool_name`. -/
def sharedMemoryPoolName : String := "__shared_memory_pool__"

/-- What registration keeps of a `ParameterServer`. -/
structure ParameterServer (Size : Type := Nat) where
  /-- `_memory_pool` -/
  memoryPool : String → Option (List (MemoryBuffer Size))
  /-- `_current_shared_memory_pool_user`, empty when there is none -/
  currentUser : String
  /-- `_p2p_store` -/
  p2pStore : Option P2PStore

namespace ParameterServer

/-- A fresh parameter server, with or without a P2P store. -/
def fresh (p2p : Bool) : ParameterServer Size where
  memoryPool := Function.update (fun _ => none) sharedMemoryPoolName (some [])
  currentUser := ""
  p2pStore := if p2p then some ⟨fun _ => none, []⟩ else none

/-- `_get_memory_pool`. -/
def getMemoryPool (s : ParameterServer Size) (checkpointName : String) :
    Except PyError (List (MemoryBuffer Size)) :=
  if checkpointName = s.currentUser then
    match s.memoryPool sharedMemoryPoolName with
    | none => .error (.keyError sharedMemoryPoolName)
    | some [] => .error (.assertionError
        s!"shared memory pool is not initialized, but checkpoint {checkpointName} is using it")
    | some pool => .ok pool
  else
    match s.memoryPool checkpointName with
    | some pool => .ok pool
    | none => .error (.runtimeError s!"checkpoint {checkpointName} is not registered")

/-- `f"memory_pool_{name}_{idx}"`. -/
def tensorName (name : String) (idx : Nat) : String :=
  "memory_pool_" ++ name ++ "_" ++ toString idx

/-- The buffers of a pool under the names they have in the P2P store. -/
def namedTensors (name : String) (pool : List (MemoryBuffer Size)) : List (String × Tensor) :=
  pool.zipIdx.map fun (memoryBuffer, idx) => (tensorName name idx, memoryBuffer.buffer)

/-- `register_name`, and `unregister_name`. -/
def registerName (s : ParameterServer Size) (checkpointName : String) : String :=
  if checkpointName ≠ s.currentUser then checkpointName else sharedMemoryPoolName

omit [OfNat Size 0] [NatCast Size] [Add Size] [LinearOrder Size] [ToString Size] in
theorem getMemoryPool_ok {s : ParameterServer Size} {name : String}
    {pool : List (MemoryBuffer Size)} (h : s.getMemoryPool name = .ok pool) :
    s.memoryPool (s.registerName name) = some pool ∧ (name = s.currentUser → pool ≠ []) := by
  unfold getMemoryPool at h
  unfold registerName
  split at h
  · rename_i hname
    rw [if_neg (not_not.mpr hname)]
    split at h
    · cases h
    · cases h
    · rename_i shared hne hshared
      obtain rfl := Except.ok.inj h
      exact ⟨hshared, fun _ => hne⟩
  · rename_i hname
    rw [if_pos hname]
    split at h
    · rename_i own hown
      obtain rfl := Except.ok.inj h
      exact ⟨hown, fun h => absurd h hname⟩
    · cases h

/-- `_register_parameters_to_p2p_store`. -/
def registerParametersToP2pStore (backend : Backend Size) (s : ParameterServer Size)
    (checkpointName : String) : Outcome PyError (ParameterServer Size) :=
  match s.p2pStore with
  | none => .raised (.assertionError "p2p store is not initialized") s
  | some store =>
      match s.getMemoryPool checkpointName with
      | .error error => .raised error s
      | .ok pool =>
          if pool.isEmpty then
            .returned s
          else
            match store.registerNamedTensors backend
              (namedTensors (s.registerName checkpointName) pool) with
            | .returned store => .returned { s with p2pStore := some store }
            | .raised error store => .raised error { s with p2pStore := some store }

/-- `_unregister_parameters_from_p2p_store`. -/
def unregisterParametersFromP2pStore (backend : Backend Size) (s : ParameterServer Size)
    (checkpointName : String) : Except PyError (ParameterServer Size) :=
  match s.p2pStore with
  | none => .error (.assertionError "p2p store is not initialized")
  | some store => do
      let pool ← s.getMemoryPool checkpointName
      if pool.isEmpty then
        return s
      else
        let store ← store.unregisterNamedTensors backend
          ((namedTensors (s.registerName checkpointName) pool).map Prod.fst)
        return { s with p2pStore := some store }

/-- `_unpin` for all manually pinned buffers of a pool: what the first failure raises. -/
def unpinAll (backend : Backend Size) (pool : List (MemoryBuffer Size)) : Option PyError :=
  (pool.filter (·.manuallyPinned)).findSome? fun memoryBuffer =>
    backend.unpinRaises memoryBuffer.buffer

/-- `unregister_checkpoint` behind the P2P store. -/
def dropCheckpoint (backend : Backend Size) (s : ParameterServer Size) (checkpointName : String) :
    Outcome PyError (ParameterServer Size) :=
  if checkpointName = s.currentUser then
    match s.memoryPool sharedMemoryPoolName with
    | none => .raised (.keyError sharedMemoryPoolName) { s with currentUser := "" }
    | some _ => .returned
        { s with
          currentUser := ""
          memoryPool := Function.update s.memoryPool sharedMemoryPoolName (some []) }
  else
    match unpinAll backend ((s.memoryPool checkpointName).getD []) with
    | some error => .raised error s
    | none => .returned
        { s with memoryPool := Function.update s.memoryPool checkpointName none }

/-- `unregister_checkpoint`. -/
def unregisterCheckpoint (backend : Backend Size) (s : ParameterServer Size)
    (checkpointName : String) (force : Bool) : Outcome PyError (ParameterServer Size) :=
  if s.memoryPool checkpointName = none ∧ checkpointName ≠ s.currentUser then
    .returned s
  else if checkpointName = s.currentUser ∧ force = false then
    .returned { s with currentUser := "" }
  else if s.p2pStore.isSome then
    match s.unregisterParametersFromP2pStore backend checkpointName with
    | .error error => .raised error s
    | .ok s => s.dropCheckpoint backend checkpointName
  else
    s.dropCheckpoint backend checkpointName

/-- The arguments of `register_checkpoint`. -/
structure Request where
  checkpointName : String
  files : List String
  namedTensors : List Parameter
  useSharedMemoryPool : Bool
  useInplacePinMemory : Bool
  deriving DecidableEq, Repr

/-- The P2P part of the `try` block. -/
def publish (backend : Backend Size) (s : ParameterServer Size) (checkpointName : String)
    (wanted : Bool) : Outcome PyError (ParameterServer Size) :=
  if s.p2pStore.isSome && wanted then s.registerParametersToP2pStore backend checkpointName
  else .returned s

/-- The `try` block of `register_checkpoint` for the shared memory pool. -/
def tryShared (backend : Backend Size) (s : ParameterServer Size) (request : Request) :
    Outcome PyError (ParameterServer Size) :=
  let name := request.checkpointName
  if s.currentUser ≠ "" then
    .raised (.assertionError (s!"cannot register checkpoint {name} to shared memory pool, " ++
      s!"since checkpoint {s.currentUser} is already using shared memory pool. " ++
      "This registration may cause unexpected conflicts.")) s
  else
    match s.memoryPool sharedMemoryPoolName with
    | none => .raised (.keyError sharedMemoryPoolName) s
    | some pool =>
        match Registry.registerCheckpoint backend.host request.files request.namedTensors pool
          false with
        | .error error => .raised error s
        | .ok loaded =>
            publish backend
              { s with
                memoryPool := Function.update s.memoryPool sharedMemoryPoolName (some loaded)
                currentUser := name }
              name pool.isEmpty

/-- The `try` block of `register_checkpoint` for a memory pool of its own. -/
def trySeparate (backend : Backend Size) (s : ParameterServer Size) (request : Request) :
    Outcome PyError (ParameterServer Size) :=
  let name := request.checkpointName
  if s.memoryPool name ≠ none then
    .raised (.assertionError s!"checkpoint {name} already registered") s
  else
    match Registry.registerCheckpoint backend.host request.files request.namedTensors []
      (request.useInplacePinMemory && backend.supportsInplacePin) with
    | .error error => .raised error s
    | .ok loaded =>
        publish backend
          { s with memoryPool := Function.update s.memoryPool name (some loaded) } name true

/-- The `except` block of `register_checkpoint`, reached with `error`. -/
def rollback (backend : Backend Size) (s : ParameterServer Size) (request : Request)
    (error : PyError) : Outcome PyError (ParameterServer Size) :=
  let unpublished : Except PyError (ParameterServer Size) :=
    if s.p2pStore.isSome && !request.useSharedMemoryPool then
      s.unregisterParametersFromP2pStore backend request.checkpointName
    else .ok s
  match unpublished with
  | .error error => .raised error s
  | .ok s =>
      match s.unregisterCheckpoint backend request.checkpointName false with
      | .raised error s => .raised error s
      | .returned s => .raised error s

/-- `register_checkpoint`. -/
def registerCheckpoint (backend : Backend Size) (s : ParameterServer Size) (request : Request) :
    Outcome PyError (ParameterServer Size) :=
  let tried :=
    if request.useSharedMemoryPool then s.tryShared backend request
    else s.trySeparate backend request
  match tried with
  | .returned s => .returned s
  | .raised error s => s.rollback backend request error

/-- The `try` block of a request. -/
def tryRegister (backend : Backend Size) (s : ParameterServer Size) (request : Request) :
    Outcome PyError (ParameterServer Size) :=
  if request.useSharedMemoryPool then s.tryShared backend request
  else s.trySeparate backend request

theorem registerCheckpoint_of_returned {backend : Backend Size} {s t : ParameterServer Size}
    {request : Request} (h : s.tryRegister backend request = .returned t) :
    (s.registerCheckpoint backend request).state = t := by
  unfold registerCheckpoint
  rw [← tryRegister, h]
  rfl

theorem registerCheckpoint_of_raised {backend : Backend Size} {s t : ParameterServer Size}
    {request : Request} {error : PyError}
    (h : s.tryRegister backend request = .raised error t) :
    (s.registerCheckpoint backend request).state = (t.rollback backend request error).state := by
  unfold registerCheckpoint
  rw [← tryRegister, h]

omit [OfNat Size 0] [NatCast Size] [LinearOrder Size] [ToString Size] in
theorem rollback_state (backend : Backend Size) (s : ParameterServer Size) (request : Request)
    (error : PyError) :
    (s.rollback backend request error).state =
      if s.p2pStore.isSome && !request.useSharedMemoryPool then
        match s.unregisterParametersFromP2pStore backend request.checkpointName with
        | .error _ => s
        | .ok s => (s.unregisterCheckpoint backend request.checkpointName false).state
      else (s.unregisterCheckpoint backend request.checkpointName false).state := by
  unfold rollback
  split
  · simp only
    cases s.unregisterParametersFromP2pStore backend request.checkpointName with
    | error error => rfl
    | ok s =>
        simp only
        cases s.unregisterCheckpoint backend request.checkpointName false <;> rfl
  · simp only
    cases s.unregisterCheckpoint backend request.checkpointName false <;> rfl

/-! ## Runs of calls -/

/-- A call on the parameter server. -/
inductive Call where
  | register (request : Request)
  | unregister (checkpointName : String) (force : Bool)
  deriving DecidableEq, Repr

/-- What a call does. -/
def call (backend : Backend Size) (s : ParameterServer Size) :
    Call → Outcome PyError (ParameterServer Size)
  | .register request => s.registerCheckpoint backend request
  | .unregister checkpointName force => s.unregisterCheckpoint backend checkpointName force

/-- Any calls, one after the other, each with whatever answers from outside. -/
def machine (p2p : Bool) : Machine (ParameterServer Size) (Backend Size × Call) where
  init := fresh p2p
  step s action := some (s.call action.1 action.2).state

end ParameterServer

end CheckpointEngine.Registry
