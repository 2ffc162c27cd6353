/-
  `Distributed.Backend`: the vLLM backends of `checkpoint_engine/distributed`,
  `DistributedNccl` and `DistributedHccl`.

  The two classes have the same text, up to the name of the communicator they keep,
  except for `new_group`.  A call of the communication library, of torch or of pickle
  raises as it is told, at any of the places where the code makes one.  Tensors and
  gathered objects are not modelled: no call decides anything by them.
-/
import CheckpointEngine.Foundation.Command
import CheckpointEngine.Foundation.Machine
import Mathlib.Data.List.Sort

set_option autoImplicit false

namespace CheckpointEngine.Distributed

open CheckpointEngine.Foundation
open CheckpointEngine.Foundation.Command

/-- What a call of a backend raises. -/
inductive BackendError where
  | assertionError (message : String)
  | valueError (message : String)
  | attributeError (message : String)
  | libraryError (message : String)
  deriving DecidableEq, Repr

/-- `CommGroup`. -/
structure CommGroup where
  handle : Int
  ranks : List Int
  deriving DecidableEq, Repr

/-- `PyNcclCommunicatorEx` and `PyHcclCommunicatorEx`. -/
structure Communicator where
  comm : Option Int
  rank : Int
  /-- of `PyHcclCommunicatorEx` only -/
  subcommId : Nat
  deriving DecidableEq, Repr

/-- The collectives the communicator offers. -/
inductive Operation where
  | allGather
  | allReduce
  | broadcast (src : Option Int)
  deriving DecidableEq, Repr

/-- `DistributedNccl` and `DistributedHccl`.  `rank` and `worldSize` are None until
`init_process_group` has set them, and not read before. -/
structure Instance where
  /-- `pynccl` or `pyhccl` -/
  communicator : Option Communicator
  subGroups : List (Int × CommGroup)
  comm : Option Int
  rank : Int
  worldSize : Int
  initialized : Bool
  /-- the collectives called so far, each with the communicator and the rank it ran as -/
  issued : List (Operation × Option Int × Int)
  deriving DecidableEq, Repr

/-- `__init__`. -/
def Instance.new : Instance := ⟨none, [], none, 0, 0, false, []⟩

/-- The places where a call leaves the modelled code. -/
inductive Site where
  | currentDevice | createStatelessProcessGroup | communicator | communicatorComm
  | destroyComm | commSplit | createSubComm
  | pickle | allGatherSizes | objectSizes | allGatherObjects | unpickle (rank : Nat)
  | allReduce | broadcast | zeros | synchronize | copy
  deriving DecidableEq, Repr

/-- What the code outside answers during one call. -/
structure Library where
  raises : Site → Option BackendError
  /-- the communicator of a new process group -/
  worldComm : Int
  /-- the communicator of a new group, if this rank is given one -/
  newComm : Option Int

/-- A method of a backend. -/
abbrev Method (α : Type) := EStateM BackendError Instance α

/-- `self.pynccl`, where an attribute of it is read or set. -/
def communicator : Method Communicator := do
  match (← get).communicator with
  | some c => return c
  | none => throw (.attributeError "'NoneType' object has no attribute")

def setComm (comm : Option Int) : Method Unit := do
  let c ← communicator
  modify fun self => { self with communicator := some { c with comm } }

def setRank (rank : Int) : Method Unit := do
  let c ← communicator
  modify fun self => { self with communicator := some { c with rank } }

/-- `ranks.index(rank)`. -/
def index (ranks : List Int) (rank : Int) : Method Int := do
  require (rank ∈ ranks) (.valueError "is not in list")
  return (ranks.idxOf rank : Nat)

/-- A collective of the communicator. -/
def issue (library : Library) (site : Site) (operation : Operation) : Method Unit := do
  let c ← communicator
  modify fun self => { self with issued := self.issued ++ [(operation, c.comm, c.rank)] }
  attempt (library.raises site)

/-! ## `_use_group` -/

/-- `_use_group`, up to its `yield`. -/
def enterGroup (group : Option CommGroup) (src : Option Int) : Method (Option Int) :=
  match group with
  | none => return src
  | some group => do
      let self ← get
      require (group.handle ∈ self.subGroups.map Prod.fst) (.assertionError "invalid sub_group")
      setComm (some group.handle)
      match src with
      | none => return none
      | some src => do
          require (src ∈ group.ranks) (.assertionError "src rank not in group")
          let activeSrc ← index group.ranks src
          setRank (← index group.ranks self.rank)
          return some activeSrc

/-- `_use_group`, its `finally`. -/
def leaveGroup (group : Option CommGroup) (src : Option Int) : Method Unit := do
  let self ← get
  if group.isSome then
    setComm self.comm
    if src.isSome then setRank self.rank

/-- `with self._use_group(group, src) as active_src: body`. -/
def useGroup (group : Option CommGroup) (src : Option Int) (body : Option Int → Method Unit) :
    Method Unit := do
  let activeSrc ← enterGroup group src
  try body activeSrc finally leaveGroup group src

/-! ## The calls of both backends -/

/-- `assert self.initialized, "not initialized"`. -/
def requireInitialized : Method Unit := do
  require ((← get).initialized = true) (.assertionError "not initialized")

def initProcessGroup (library : Library) (rank worldSize : Int) : Method Unit := do
  require ((← get).initialized = false) (.assertionError "already initialized")
  modify fun self => { self with rank, worldSize }
  attempt (library.raises .currentDevice)
  attempt (library.raises .createStatelessProcessGroup)
  attempt (library.raises .communicator)
  modify fun self => { self with communicator := some ⟨some library.worldComm, rank, 1⟩ }
  -- a communicator that is not available has no attribute `comm`
  attempt (library.raises .communicatorComm)
  let c ← communicator
  modify fun self => { self with comm := c.comm, initialized := true }

def destroyProcessGroup (library : Library) (group : Option CommGroup) : Method Unit := do
  requireInitialized
  let self ← get
  match group.filter fun group => group.handle ∈ self.subGroups.map Prod.fst with
  | some group => do
      let _ ← communicator
      attempt (library.raises .destroyComm)
      modify fun self =>
        { self with subGroups := self.subGroups.filter fun entry => entry.1 ≠ group.handle }
  | none => do
      let _ ← communicator
      attempt (library.raises .destroyComm)
      modify fun self => { self with communicator := none, initialized := false }

/-- `_common_all_gather_object`. -/
def commonAllGatherObject (library : Library) : Method Unit := do
  attempt (library.raises .pickle)
  issue library .allGatherSizes .allGather
  attempt (library.raises .objectSizes)
  issue library .allGatherObjects .allGather
  (List.range (← get).worldSize.toNat).forM fun i => attempt (library.raises (.unpickle i))

def allGatherObject (library : Library) (group : Option CommGroup) : Method Unit := do
  requireInitialized
  useGroup group none fun _ => do
    commonAllGatherObject library
    attempt (library.raises .synchronize)

def allReduce (library : Library) (group : Option CommGroup) : Method Unit := do
  requireInitialized
  useGroup group none fun _ => do
    issue library .allReduce .allReduce
    attempt (library.raises .synchronize)
    attempt (library.raises .copy)

def broadcast (library : Library) (src : Option Int) (group : Option CommGroup) :
    Method Unit := do
  requireInitialized
  useGroup group src fun localSrc => do
    issue library .broadcast (.broadcast localSrc)
    attempt (library.raises .synchronize)

def barrier (library : Library) (group : Option CommGroup) : Method Unit := do
  requireInitialized
  useGroup group none fun _ => do
    attempt (library.raises .zeros)
    issue library .allReduce .allReduce
    attempt (library.raises .synchronize)

/-! ## `new_group` -/

/-- The ranks of a new group: all of them where none are named. -/
def groupRanks (worldSize : Int) (ranks : List Int) : List Int :=
  if ranks = [] then (List.range worldSize.toNat).map fun rank => (rank : Int)
  else ranks.insertionSort (· ≤ ·)

/-- `self.sub_groups[handle] = CommGroup(handle, ranks)`, for a communicator that is not
null. -/
def enterSubGroup (newcomm : Option Int) (ranks : List Int) : Method (Option CommGroup) := do
  match newcomm with
  | none => return none
  | some handle =>
      modify fun self =>
        { self with subGroups := (handle, ⟨handle, ranks⟩) ::
            self.subGroups.filter fun entry => entry.1 ≠ handle }
      return some ⟨handle, ranks⟩

/-- `new_group` of `DistributedNccl`.  Every rank takes part in the split, which gives a
communicator to those in the group. -/
def Nccl.newGroup (library : Library) (ranks : List Int) : Method (Option CommGroup) := do
  requireInitialized
  let ranks := groupRanks (← get).worldSize ranks
  let c ← communicator
  attempt (library.raises .commSplit)
  enterSubGroup (if c.rank ∈ ranks then library.newComm else none) ranks

/-- `create_subcomm` of `PyHcclCommunicatorEx`. -/
def createSubcomm (library : Library) (ranks : List Int) : Method (Option Int) := do
  let c ← communicator
  let _ ← index ranks c.rank
  attempt (library.raises .createSubComm)
  modify fun self =>
    { self with
      communicator := self.communicator.map fun c => { c with subcommId := c.subcommId + 1 } }
  return library.newComm

/-- `new_group` of `DistributedHccl`. -/
def Hccl.newGroup (library : Library) (ranks : List Int) : Method (Option CommGroup) := do
  requireInitialized
  let ranks := groupRanks (← get).worldSize ranks
  if (← get).rank ∉ ranks then
    return none
  else
    enterSubGroup (← createSubcomm library ranks) ranks

/-! ## Runs -/

/-- A call with its arguments.  An absent list of ranks is an empty one. -/
inductive Call where
  | initProcessGroup (rank worldSize : Int)
  | newGroup (ranks : List Int)
  | destroyProcessGroup (group : Option CommGroup)
  | allReduce (group : Option CommGroup)
  | broadcast (src : Option Int) (group : Option CommGroup)
  | barrier (group : Option CommGroup)
  | allGatherObject (group : Option CommGroup)
  deriving DecidableEq, Repr

variable (newGroup : Library → List Int → Method (Option CommGroup))

/-- A call, for the backend with this `new_group`. -/
def perform (library : Library) : Call → Method Unit
  | .initProcessGroup rank worldSize => initProcessGroup library rank worldSize
  | .newGroup ranks => discard (newGroup library ranks)
  | .destroyProcessGroup group => destroyProcessGroup library group
  | .allReduce group => allReduce library group
  | .broadcast src group => broadcast library src group
  | .barrier group => barrier library group
  | .allGatherObject group => allGatherObject library group

/-- A process calls its backend as it likes. -/
def machine : Machine Instance (Library × Call) where
  init := .new
  step self agent := some (after (perform newGroup agent.1 agent.2) self)

end CheckpointEngine.Distributed
