/-
  `Registry.Mirror`: the P2P store shows what the memory pools hold.

  The shared pool is published when it is first used and replaced at every use, and a
  name is published under the pool it resolves to.  The store therefore follows the
  pools as long as a reused pool keeps its buffers and no name has two pools.
-/
import CheckpointEngine.Foundation.Dictionary
import CheckpointEngine.Foundation.Numbering
import CheckpointEngine.Registry.Atomicity

set_option autoImplicit false

namespace CheckpointEngine.Registry

open CheckpointEngine.Foundation

/-! ## What the calls make of the store -/

/-- The store after the engine has taken the tensors. -/
def P2PStore.enter (store : P2PStore) (tensors : List (String × Tensor)) : P2PStore where
  namedTensors := updateAll store.namedTensors tensors
  registered := store.registered ++ tensors.map (·.2.ptr)

/-- The store after the engine has let go of the addresses. -/
def P2PStore.remove (store : P2PStore) (names : List String) (addresses : List Nat) :
    P2PStore where
  namedTensors name := if name ∈ names then none else store.namedTensors name
  registered := store.registered.filter (· ∉ addresses)

/-! ## Names -/

namespace ParameterServer

/-- A name in the P2P store belongs to one pool and one place in it. -/
theorem tensorName_inj {key key' : String} {idx idx' : Nat}
    (h : tensorName key idx = tensorName key' idx') : key = key' ∧ idx = idx' :=
  numbered_inj rfl rfl h

/-- The names of a pool's tensors. -/
theorem mem_names {key name : String} {pool : List MemoryBuffer} :
    name ∈ (namedTensors key pool).map Prod.fst ↔
      ∃ idx, idx < pool.length ∧ name = tensorName key idx := by
  simp only [namedTensors, List.map_map, List.mem_map, Function.comp_apply, Prod.exists,
    List.mem_zipIdx_iff_getElem?]
  constructor
  · rintro ⟨memoryBuffer, idx, hget, rfl⟩
    exact ⟨idx, (List.getElem?_eq_some_iff.mp hget).1, rfl⟩
  · rintro ⟨idx, hlt, rfl⟩
    exact ⟨pool[idx], idx, List.getElem?_eq_getElem hlt, rfl⟩

theorem mem_namedTensors {key name : String} {tensor : Tensor} {pool : List MemoryBuffer} :
    (name, tensor) ∈ namedTensors key pool ↔
      ∃ idx, name = tensorName key idx ∧ (pool.map (·.buffer))[idx]? = some tensor := by
  simp only [namedTensors, List.mem_map, Prod.exists, List.mem_zipIdx_iff_getElem?,
    Prod.mk.injEq, List.getElem?_map, Option.map_eq_some_iff]
  constructor
  · rintro ⟨memoryBuffer, idx, hget, rfl, rfl⟩
    exact ⟨idx, rfl, memoryBuffer, hget, rfl⟩
  · rintro ⟨idx, rfl, memoryBuffer, hget, rfl⟩
    exact ⟨memoryBuffer, idx, hget, rfl, rfl⟩

theorem namedTensors_ptrs (key : String) (pool : List MemoryBuffer) :
    (namedTensors key pool).map (·.2.ptr) = (pool.map (·.buffer)).map Tensor.ptr := by
  calc (namedTensors key pool).map (·.2.ptr)
      = ((pool.zipIdx.map Prod.fst).map (·.buffer)).map Tensor.ptr := by
        simp only [namedTensors, List.map_map, Function.comp_def]
    _ = (pool.map (·.buffer)).map Tensor.ptr := by rw [List.zipIdx_map_fst]

theorem names_nodup (key : String) (pool : List MemoryBuffer) :
    ((namedTensors key pool).map Prod.fst).Nodup := by
  have hnames : (namedTensors key pool).map Prod.fst =
      (pool.zipIdx.map Prod.snd).map (tensorName key) := by
    simp only [namedTensors, List.map_map, Function.comp_def]
  rw [hnames, List.zipIdx_map_snd]
  apply List.Nodup.map
  · intro idx idx' h
    exact (tensorName_inj h).2
  · exact List.nodup_range'

/-- Looking a name up after the tensors of a pool have been entered. -/
theorem updateAll_namedTensors {dict : String → Option Tensor} {key name : String}
    {tensor : Tensor} {pool : List MemoryBuffer} :
    updateAll dict (namedTensors key pool) name = some tensor ↔
      (∃ idx, name = tensorName key idx ∧ (pool.map (·.buffer))[idx]? = some tensor) ∨
        (dict name = some tensor ∧ name ∉ (namedTensors key pool).map Prod.fst) := by
  rw [← mem_namedTensors]
  constructor
  · intro hsome
    by_cases hname : name ∈ (namedTensors key pool).map Prod.fst
    · obtain ⟨⟨_, found⟩, hfound, rfl⟩ := List.mem_map.mp hname
      rw [updateAll_of_mem (names_nodup key pool) hfound] at hsome
      obtain rfl := Option.some.inj hsome
      exact .inl hfound
    · rw [updateAll_of_notMem hname] at hsome
      exact .inr ⟨hsome, hname⟩
  · rintro (hfound | ⟨hsome, hname⟩)
    · exact updateAll_of_mem (names_nodup key pool) hfound
    · rw [updateAll_of_notMem hname]
      exact hsome

/-! ## What the pools hold -/

/-- The buffers under a key of `_memory_pool`. -/
def buffersOf (s : ParameterServer) (key : String) : List Tensor :=
  ((s.memoryPool key).getD []).map (·.buffer)

/-- Some pool holds the tensor, and it belongs under this name. -/
def Holds (buffers : String → List Tensor) (name : String) (tensor : Tensor) : Prop :=
  ∃ key idx, name = tensorName key idx ∧ (buffers key)[idx]? = some tensor

/-- The store has the tensors of the pools under their names, and their addresses are
registered, each of them once. -/
structure Mirrors (buffers : String → List Tensor) (store : P2PStore) : Prop where
  named : ∀ name tensor, store.namedTensors name = some tensor ↔ Holds buffers name tensor
  addresses : ∀ address, address ∈ store.registered ↔
    ∃ name tensor, Holds buffers name tensor ∧ tensor.ptr = address
  once : store.registered.Nodup

/-- No two buffers lie at the same address. -/
def Apart (buffers : String → List Tensor) : Prop :=
  ∀ name name' tensor tensor', Holds buffers name tensor → Holds buffers name' tensor' →
    tensor.ptr = tensor'.ptr → name = name'

/-- The pools after one of them has changed. -/
theorem holds_update {buffers : String → List Tensor} {key name : String} {tensors : List Tensor}
    {tensor : Tensor} :
    Holds (Function.update buffers key tensors) name tensor ↔
      (∃ idx, name = tensorName key idx ∧ tensors[idx]? = some tensor) ∨
        (Holds buffers name tensor ∧ ∀ idx, name ≠ tensorName key idx) := by
  constructor
  · rintro ⟨key', idx, rfl, hget⟩
    by_cases hkey : key' = key
    · subst hkey
      rw [Function.update_self] at hget
      exact .inl ⟨idx, rfl, hget⟩
    · rw [Function.update_of_ne hkey] at hget
      exact .inr ⟨⟨key', idx, rfl, hget⟩, fun idx' h => hkey (tensorName_inj h).1⟩
  · rintro (⟨idx, rfl, hget⟩ | ⟨⟨key', idx, rfl, hget⟩, hother⟩)
    · exact ⟨key, idx, rfl, by rw [Function.update_self]; exact hget⟩
    · have hkey : key' ≠ key := by
        rintro rfl
        exact hother idx rfl
      exact ⟨key', idx, rfl, by rw [Function.update_of_ne hkey]; exact hget⟩

theorem holds_tensorName {buffers : String → List Tensor} {key : String} {idx : Nat}
    {tensor : Tensor} :
    Holds buffers (tensorName key idx) tensor ↔ (buffers key)[idx]? = some tensor := by
  constructor
  · rintro ⟨key', idx', hname, hget⟩
    obtain ⟨rfl, rfl⟩ := tensorName_inj hname
    exact hget
  · intro hget
    exact ⟨key, idx, rfl, hget⟩

/-! ## One pool comes or goes -/

section Pools

variable {buffers : String → List Tensor} {store : P2PStore} {key : String}
  {tensors : List Tensor} {pool : List MemoryBuffer}

/-- A pool under a key that had none adds its buffers. -/
theorem holds_enter (hkey : buffers key = []) {name : String} {tensor : Tensor} :
    Holds (Function.update buffers key tensors) name tensor ↔
      (∃ idx, name = tensorName key idx ∧ tensors[idx]? = some tensor) ∨
        Holds buffers name tensor := by
  rw [holds_update]
  refine or_congr_right (and_iff_left_of_imp fun hholds => ?_)
  rintro idx rfl
  rw [holds_tensorName, hkey] at hholds
  cases hholds

/-- A pool that is given up takes its names along. -/
theorem holds_remove {name : String} {tensor : Tensor} :
    Holds (Function.update buffers key []) name tensor ↔
      Holds buffers name tensor ∧ ∀ idx, name ≠ tensorName key idx := by
  simp [holds_update]

theorem Apart.enter (h : Apart buffers) (hkey : buffers key = [])
    (hnodup : (tensors.map Tensor.ptr).Nodup)
    (hnew : ∀ tensor ∈ tensors, ∀ name tensor', Holds buffers name tensor' →
      tensor'.ptr ≠ tensor.ptr) :
    Apart (Function.update buffers key tensors) := by
  have hptrs : ∀ {idx : Nat} {tensor : Tensor}, tensors[idx]? = some tensor →
      (tensors.map Tensor.ptr)[idx]? = some tensor.ptr := by
    intro idx tensor hget
    rw [List.getElem?_map, hget]
    rfl
  intro name name' tensor tensor' hholds hholds' hptr
  rcases (holds_enter hkey).mp hholds with ⟨idx, rfl, hget⟩ | hold <;>
    rcases (holds_enter hkey).mp hholds' with ⟨idx', rfl, hget'⟩ | hold'
  · have hlt := (List.getElem?_eq_some_iff.mp (hptrs hget)).1
    have hsame := (hptrs hget).trans ((congrArg some hptr).trans (hptrs hget').symm)
    rw [(List.getElem?_inj hlt hnodup).mp hsame]
  · exact absurd hptr.symm (hnew tensor (List.mem_of_getElem? hget) name' tensor' hold')
  · exact absurd hptr (hnew tensor' (List.mem_of_getElem? hget') name tensor hold)
  · exact h name name' tensor tensor' hold hold' hptr

theorem Apart.remove (h : Apart buffers) : Apart (Function.update buffers key []) := by
  intro name name' tensor tensor' hholds hholds'
  exact h name name' tensor tensor' (holds_remove.mp hholds).1 (holds_remove.mp hholds').1

/-- A pool is published under a key that had none. -/
theorem Mirrors.enter (h : Mirrors buffers store) (hkey : buffers key = [])
    (hnodup : ((pool.map (·.buffer)).map Tensor.ptr).Nodup)
    (hnew : ∀ tensor ∈ pool.map (·.buffer), ∀ name tensor', Holds buffers name tensor' →
      tensor'.ptr ≠ tensor.ptr) :
    Mirrors (Function.update buffers key (pool.map (·.buffer)))
      (store.enter (namedTensors key pool)) where
  named name tensor := by
    change updateAll store.namedTensors (namedTensors key pool) name = some tensor ↔ _
    rw [updateAll_namedTensors, holds_enter hkey, h.named]
    refine or_congr_right (and_iff_left_of_imp fun hholds hname => ?_)
    obtain ⟨idx, _, rfl⟩ := mem_names.mp hname
    rw [holds_tensorName, hkey] at hholds
    cases hholds
  addresses address := by
    have hmem : address ∈ (store.enter (namedTensors key pool)).registered ↔
        (∃ tensor ∈ pool.map (·.buffer), tensor.ptr = address) ∨ address ∈ store.registered := by
      rw [← List.mem_map, ← namedTensors_ptrs key, or_comm]
      exact List.mem_append
    rw [hmem, h.addresses]
    constructor
    · rintro (⟨tensor, htensor, hptr⟩ | ⟨name, tensor, hholds, hptr⟩)
      · obtain ⟨idx, hget⟩ := List.mem_iff_getElem?.mp htensor
        exact ⟨tensorName key idx, tensor, (holds_enter hkey).mpr (.inl ⟨idx, rfl, hget⟩), hptr⟩
      · exact ⟨name, tensor, (holds_enter hkey).mpr (.inr hholds), hptr⟩
    · rintro ⟨name, tensor, hholds, hptr⟩
      rcases (holds_enter hkey).mp hholds with ⟨idx, _, hget⟩ | hholds
      · exact .inl ⟨tensor, List.mem_of_getElem? hget, hptr⟩
      · exact .inr ⟨name, tensor, hholds, hptr⟩
  once := by
    change (store.registered ++ (namedTensors key pool).map (·.2.ptr)).Nodup
    rw [namedTensors_ptrs]
    refine List.nodup_append'.mpr ⟨h.once, hnodup, fun address hold hfresh => ?_⟩
    obtain ⟨name, tensor', hholds, rfl⟩ := (h.addresses address).mp hold
    obtain ⟨tensor, htensor, hptr⟩ := List.mem_map.mp hfresh
    exact hnew tensor htensor name tensor' hholds hptr.symm

/-- Of the names that are held, the pool's are those under its key. -/
theorem Holds.mem_names {name : String} {tensor : Tensor} (h : Holds buffers name tensor)
    (hkey : buffers key = pool.map (·.buffer)) :
    name ∈ (namedTensors key pool).map Prod.fst ↔ ∃ idx, name = tensorName key idx := by
  rw [ParameterServer.mem_names]
  constructor
  · rintro ⟨idx, _, hname⟩
    exact ⟨idx, hname⟩
  · rintro ⟨idx, rfl⟩
    rw [holds_tensorName, hkey] at h
    have hlt := (List.getElem?_eq_some_iff.mp h).1
    rw [List.length_map] at hlt
    exact ⟨idx, hlt, rfl⟩

/-- The addresses the store has for a list of names. -/
theorem Mirrors.mem_addresses (h : Mirrors buffers store) {names : List String}
    {addresses : List Nat} (haddresses : store.addresses names = .ok addresses) (address : Nat) :
    address ∈ addresses ↔
      ∃ name ∈ names, ∃ tensor, Holds buffers name tensor ∧ tensor.ptr = address := by
  have hmap := P2PStore.addresses_ok haddresses
  calc address ∈ addresses
      ↔ some address ∈ addresses.map some := by simp
    _ ↔ ∃ name ∈ names, (store.namedTensors name).map Tensor.ptr = some address := by
        rw [← hmap, List.mem_map]
    _ ↔ _ := by simp only [Option.map_eq_some_iff, h.named]

/-- A pool is given up, with its names and addresses. -/
theorem Mirrors.remove (h : Mirrors buffers store) (hapart : Apart buffers)
    (hkey : buffers key = pool.map (·.buffer)) {addresses : List Nat}
    (haddresses : store.addresses ((namedTensors key pool).map Prod.fst) = .ok addresses) :
    Mirrors (Function.update buffers key [])
      (store.remove ((namedTensors key pool).map Prod.fst) addresses) where
  named name tensor := by
    rw [holds_remove, ← h.named]
    change (if name ∈ (namedTensors key pool).map Prod.fst then none
      else store.namedTensors name) = some tensor ↔ _
    split
    · rename_i hname
      obtain ⟨idx, _, rfl⟩ := ParameterServer.mem_names.mp hname
      simp
    · rename_i hname
      refine (and_iff_left_of_imp fun hsome => ?_).symm
      intro idx hidx
      exact hname ((((h.named name tensor).mp hsome).mem_names hkey).mpr ⟨idx, hidx⟩)
  addresses address := by
    have hmem : address ∈ (store.remove ((namedTensors key pool).map Prod.fst)
        addresses).registered ↔ address ∈ store.registered ∧ address ∉ addresses := by
      simp [P2PStore.remove]
    rw [hmem, h.addresses, h.mem_addresses haddresses]
    constructor
    · rintro ⟨⟨name, tensor, hholds, hptr⟩, hkept⟩
      refine ⟨name, tensor, holds_remove.mpr ⟨hholds, fun idx hidx => hkept ?_⟩, hptr⟩
      exact ⟨name, (hholds.mem_names hkey).mpr ⟨idx, hidx⟩, tensor, hholds, hptr⟩
    · rintro ⟨name, tensor, hholds, hptr⟩
      obtain ⟨hholds, hother⟩ := holds_remove.mp hholds
      refine ⟨⟨name, tensor, hholds, hptr⟩, ?_⟩
      -- another tensor at this address would be the same one
      rintro ⟨name', hname', tensor', hholds', hptr'⟩
      obtain rfl := hapart name name' tensor tensor' hholds hholds' (hptr.trans hptr'.symm)
      obtain ⟨idx, hidx⟩ := (hholds.mem_names hkey).mp hname'
      exact hother idx hidx
  once := h.once.filter _

end Pools

/-! ## Calls that return -/

section Returned

variable {backend : Backend} {s s' : ParameterServer} {name : String}

/-- A publication enters the pool that the name stands for. -/
theorem registerParameters_returned
    (h : s.registerParametersToP2pStore backend name = .returned s') :
    ∃ store pool, s.p2pStore = some store ∧ s.getMemoryPool name = .ok pool ∧
      s' = { s with p2pStore := some (store.enter (namedTensors (s.registerName name) pool)) } := by
  unfold registerParametersToP2pStore at h
  cases hstore : s.p2pStore with
  | none => rw [hstore] at h; cases h
  | some store =>
      rw [hstore] at h
      cases hpool : s.getMemoryPool name with
      | error error => rw [hpool] at h; cases h
      | ok pool =>
          rw [hpool] at h
          refine ⟨store, pool, rfl, rfl, ?_⟩
          cases pool with
          | nil =>
              obtain rfl := Outcome.returned.inj h
              simp [namedTensors, P2PStore.enter, updateAll, ← hstore]
          | cons first rest =>
              simp only [List.isEmpty_cons, Bool.false_eq_true, if_false] at h
              cases hregisters : backend.registers
                  ((namedTensors (s.registerName name) (first :: rest)).map (·.2.ptr)) with
              | true =>
                  simp only [P2PStore.registerNamedTensors, hregisters, if_true] at h
                  exact (Outcome.returned.inj h).symm
              | false =>
                  simp only [P2PStore.registerNamedTensors, hregisters, Bool.false_eq_true,
                    if_false] at h
                  cases h

theorem unregisterParameters_ok
    (h : s.unregisterParametersFromP2pStore backend name = .ok s') :
    ∃ store pool addresses, s.p2pStore = some store ∧ s.getMemoryPool name = .ok pool ∧
      store.addresses ((namedTensors (s.registerName name) pool).map Prod.fst) = .ok addresses ∧
      s' = { s with p2pStore := some (store.remove
        ((namedTensors (s.registerName name) pool).map Prod.fst) addresses) } := by
  unfold unregisterParametersFromP2pStore at h
  cases hstore : s.p2pStore with
  | none => rw [hstore] at h; cases h
  | some store =>
      rw [hstore] at h
      obtain ⟨pool, hpool, h⟩ := bind_eq_ok.mp h
      cases pool with
      | nil =>
          obtain rfl : s = s' := Except.ok.inj h
          refine ⟨store, [], [], rfl, hpool, rfl, ?_⟩
          simp [namedTensors, P2PStore.remove, ← hstore]
      | cons first rest =>
          simp only [List.isEmpty_cons, Bool.false_eq_true, if_false] at h
          obtain ⟨store', hremoved, h⟩ := bind_eq_ok.mp h
          obtain rfl := Except.ok.inj h
          obtain ⟨addresses, haddresses, _, rfl⟩ := P2PStore.unregisterNamedTensors_ok hremoved
          exact ⟨store, first :: rest, addresses, rfl, hpool, haddresses, rfl⟩

theorem dropCheckpoint_returned (h : s.dropCheckpoint backend name = .returned s') :
    s'.p2pStore = s.p2pStore ∧ ∃ left, left.getD [] = [] ∧
      s'.memoryPool = Function.update s.memoryPool (s.registerName name) left := by
  unfold dropCheckpoint at h
  unfold registerName
  split at h
  · rename_i hname
    rw [if_neg (not_not.mpr hname)]
    split at h
    · cases h
    · obtain rfl := Outcome.returned.inj h
      exact ⟨rfl, some [], rfl, rfl⟩
  · rename_i hname
    rw [if_pos hname]
    split at h
    · cases h
    · obtain rfl := Outcome.returned.inj h
      exact ⟨rfl, none, rfl, rfl⟩

theorem publish_returned (hstore : s.p2pStore.isSome) {wanted : Bool}
    (h : s.publish backend name wanted = .returned s') :
    if wanted then s.registerParametersToP2pStore backend name = .returned s' else s' = s := by
  unfold publish at h
  rw [hstore, Bool.true_and] at h
  cases wanted with
  | true => exact h
  | false => exact (Outcome.returned.inj h).symm

theorem tryShared_returned {request : Request}
    (h : s.tryShared backend request = .returned s') :
    ∃ pool loaded, s.memoryPool sharedMemoryPoolName = some pool ∧
      Registry.registerCheckpoint backend.host request.files request.namedTensors pool false =
        .ok loaded ∧
      publish backend
        { s with
          memoryPool := Function.update s.memoryPool sharedMemoryPoolName (some loaded)
          currentUser := request.checkpointName }
        request.checkpointName pool.isEmpty = .returned s' := by
  unfold tryShared at h
  simp only at h
  split at h
  · cases h
  · split at h
    · cases h
    · rename_i pool hpool
      split at h
      · cases h
      · rename_i loaded hload
        exact ⟨pool, loaded, hpool, hload, h⟩

theorem trySeparate_returned {request : Request}
    (h : s.trySeparate backend request = .returned s') :
    s.memoryPool request.checkpointName = none ∧ ∃ loaded,
      Registry.registerCheckpoint backend.host request.files request.namedTensors []
        (request.useInplacePinMemory && backend.supportsInplacePin) = .ok loaded ∧
      publish backend
        { s with
          memoryPool := Function.update s.memoryPool request.checkpointName (some loaded) }
        request.checkpointName true = .returned s' := by
  unfold trySeparate at h
  simp only at h
  split at h
  · cases h
  · rename_i hpool
    split at h
    · cases h
    · rename_i loaded hload
      exact ⟨not_not.mp hpool, loaded, hload, h⟩

/-- The `except` block always raises. -/
theorem registerCheckpoint_returned {request : Request}
    (h : s.registerCheckpoint backend request = .returned s') :
    (if request.useSharedMemoryPool then s.tryShared backend request
      else s.trySeparate backend request) = .returned s' := by
  unfold registerCheckpoint at h
  simp only at h
  split at h
  · rename_i tried htried
    rw [htried, Outcome.returned.inj h]
  · unfold rollback at h
    simp only at h
    split at h
    · cases h
    · split at h <;> cases h

end Returned

/-! ## The mirror over runs -/

/-- The store mirrors the pools, which lie apart. -/
def Follows (s : ParameterServer) : Prop :=
  ∃ store, s.p2pStore = some store ∧ Mirrors s.buffersOf store ∧ Apart s.buffersOf

/-- The call gives its new buffers addresses of their own. -/
def AllocatesFresh (host : Host) (s : ParameterServer) : Prop :=
  Function.Injective host.allocate ∧
    ∀ name tensor, Holds s.buffersOf name tensor → ∀ k, tensor.ptr ≠ host.allocate k

/-- A registration in the shared pool replaces as many buffers as there are, or is the
first to allocate some; one with a pool of its own goes by a name that is not the
shared pool's. -/
def KeepsShape (backend : Backend) (s : ParameterServer) : Call → Prop
  | .unregister _ _ => True
  | .register request =>
      if request.useSharedMemoryPool then
        match s.memoryPool sharedMemoryPoolName with
        | none => True
        | some [] => AllocatesFresh backend.host s
        | some pool => packedCount backend.host request.files request.namedTensors = pool.length
      else
        request.checkpointName ≠ s.currentUser ∧ AllocatesFresh backend.host s

/-- The call returns normally. -/
def Returns (s : ParameterServer) (action : Backend × Call) : Prop :=
  ∃ s', s.call action.1 action.2 = .returned s'

section Runs

variable {backend : Backend} {s s' s₁ : ParameterServer}

theorem buffersOf_update {key : String} {left : Option (List MemoryBuffer)}
    (h : s'.memoryPool = Function.update s.memoryPool key left) :
    s'.buffersOf = Function.update s.buffersOf key ((left.getD []).map (·.buffer)) := by
  funext key'
  unfold buffersOf
  rw [h]
  by_cases hkey : key' = key
  · rw [hkey, Function.update_self, Function.update_self]
  · rw [Function.update_of_ne hkey, Function.update_of_ne hkey]

theorem ptrs_eq_allocate {host : Host} {loaded : List MemoryBuffer}
    (h : ∀ i b, loaded[i]? = some b → b.buffer.ptr = host.allocate i) :
    (loaded.map (·.buffer)).map Tensor.ptr = (List.range loaded.length).map host.allocate := by
  refine List.ext_getElem (by simp) fun i hi _ => ?_
  have hlt : i < loaded.length := by simpa using hi
  simpa using h i loaded[i] (List.getElem?_eq_getElem hlt)

/-- New buffers are published under a key that had none. -/
theorem Follows.publish {name key : String} {loaded : List MemoryBuffer} (h : Follows s)
    (hfresh : AllocatesFresh backend.host s) (hkey : s.buffersOf key = [])
    (hloaded : ∀ i b, loaded[i]? = some b → b.buffer.ptr = backend.host.allocate i)
    (hreturned : s₁.publish backend name true = .returned s')
    (hmemory : s₁.memoryPool = Function.update s.memoryPool key (some loaded))
    (hstore : s₁.p2pStore = s.p2pStore) (hname : s₁.registerName name = key) : Follows s' := by
  obtain ⟨store, hsome, hmirrors, hapart⟩ := h
  obtain ⟨hinjective, hunheld⟩ := hfresh
  have hptrs := ptrs_eq_allocate hloaded
  obtain ⟨store', pool, hsome', hpool, rfl⟩ := registerParameters_returned
    (publish_returned (by rw [hstore, hsome]; rfl) hreturned)
  obtain rfl : store = store' := Option.some.inj (hsome.symm.trans (hstore.symm.trans hsome'))
  obtain rfl : loaded = pool := by
    have hget := (getMemoryPool_ok hpool).1
    rw [hname, hmemory, Function.update_self] at hget
    exact Option.some.inj hget
  have hbuffers : s₁.buffersOf = Function.update s.buffersOf key (loaded.map (·.buffer)) :=
    buffersOf_update hmemory
  refine ⟨_, rfl, ?_⟩
  change Mirrors s₁.buffersOf _ ∧ Apart s₁.buffersOf
  rw [hbuffers, hname]
  have hnodup : ((loaded.map (·.buffer)).map Tensor.ptr).Nodup := by
    rw [hptrs]
    exact List.nodup_range.map hinjective
  have hnew : ∀ tensor ∈ loaded.map (·.buffer), ∀ name tensor',
      Holds s.buffersOf name tensor' → tensor'.ptr ≠ tensor.ptr := by
    intro tensor htensor name tensor' hholds
    have hptr : tensor.ptr ∈ (loaded.map (·.buffer)).map Tensor.ptr := List.mem_map_of_mem htensor
    rw [hptrs] at hptr
    obtain ⟨k, _, hk⟩ := List.mem_map.mp hptr
    rw [← hk]
    exact hunheld name tensor' hholds k
  exact ⟨hmirrors.enter hkey hnodup hnew, hapart.enter hkey hnodup hnew⟩

/-- Registering in the shared pool. -/
theorem Follows.tryShared {request : Request} (h : Follows s)
    (hshape : ∀ pool, s.memoryPool sharedMemoryPoolName = some pool →
      if pool = [] then AllocatesFresh backend.host s
      else packedCount backend.host request.files request.namedTensors = pool.length)
    (hreturned : s.tryShared backend request = .returned s') : Follows s' := by
  obtain ⟨pool, loaded, hpool, hload, hpublish⟩ := tryShared_returned hreturned
  have hshape := hshape pool hpool
  obtain ⟨hlength, _, hplaces⟩ := registerCheckpoint_copied hload
  cases pool with
  | nil =>
      -- the first use allocates and publishes
      rw [if_pos rfl] at hshape
      have hempty : s.buffersOf sharedMemoryPoolName = [] := by simp [buffersOf, hpool]
      refine h.publish hshape hempty hplaces hpublish rfl rfl ?_
      simp [registerName]
  | cons first rest =>
      -- a later use replaces each buffer by itself
      rw [if_neg (List.cons_ne_nil _ _)] at hshape
      obtain ⟨store, hsome, hmirrors, hapart⟩ := h
      have hsame : s' = _ := publish_returned (by simp [hsome]) hpublish
      have hbuffers : loaded.map (·.buffer) = (first :: rest).map (·.buffer) := by
        refine List.ext_getElem? fun i => ?_
        rw [List.getElem?_map, List.getElem?_map]
        rcases Nat.lt_or_ge i loaded.length with hlt | hge
        · have hb := List.getElem?_eq_getElem hlt
          have hplace := hplaces i loaded[i] hb
          rw [if_neg (List.cons_ne_nil _ _)] at hplace
          rw [hb, hplace]
          rfl
        · rw [List.getElem?_eq_none hge, List.getElem?_eq_none (by omega)]
      have hunchanged : s'.buffersOf = s.buffersOf := by
        rw [hsame, buffersOf_update (s := s) rfl, Option.getD_some, hbuffers]
        exact Function.update_eq_self_iff.mpr (by simp [buffersOf, hpool])
      refine ⟨store, ?_, ?_, ?_⟩
      · rw [hsame]
        exact hsome
      · rw [hunchanged]
        exact hmirrors
      · rw [hunchanged]
        exact hapart

/-- Registering with a pool of its own. -/
theorem Follows.trySeparate {request : Request} (h : Follows s)
    (hname : request.checkpointName ≠ s.currentUser) (hfresh : AllocatesFresh backend.host s)
    (hreturned : s.trySeparate backend request = .returned s') : Follows s' := by
  obtain ⟨hpool, loaded, hload, hpublish⟩ := trySeparate_returned hreturned
  have hempty : s.buffersOf request.checkpointName = [] := by simp [buffersOf, hpool]
  refine h.publish hfresh hempty (registerCheckpoint_fresh hload) hpublish rfl rfl ?_
  simp [registerName, hname]

/-- Unregistering. -/
theorem Follows.unregisterCheckpoint {name : String} {force : Bool} (h : Follows s)
    (hreturned : s.unregisterCheckpoint backend name force = .returned s') : Follows s' := by
  obtain ⟨store, hsome, hmirrors, hapart⟩ := h
  unfold ParameterServer.unregisterCheckpoint at hreturned
  split at hreturned
  · obtain rfl := Outcome.returned.inj hreturned
    exact ⟨store, hsome, hmirrors, hapart⟩
  · split at hreturned
    · obtain rfl := Outcome.returned.inj hreturned
      exact ⟨store, hsome, hmirrors, hapart⟩
    · rw [if_pos (by simp [hsome])] at hreturned
      split at hreturned
      · cases hreturned
      · rename_i s₁ hparams
        obtain ⟨store', pool, addresses, hsome', hpool, haddresses, rfl⟩ :=
          unregisterParameters_ok hparams
        obtain rfl : store = store' := Option.some.inj (hsome.symm.trans hsome')
        obtain ⟨hstore, left, hleft, hmemory⟩ := dropCheckpoint_returned hreturned
        have hbuffers : s'.buffersOf = Function.update s.buffersOf (s.registerName name) [] := by
          rw [buffersOf_update (s := s) hmemory, hleft]
          rfl
        refine ⟨_, hstore, ?_⟩
        rw [hbuffers]
        refine ⟨hmirrors.remove hapart ?_ haddresses, hapart.remove⟩
        simp [buffersOf, (getMemoryPool_ok hpool).1]

theorem not_holds_fresh {p2p : Bool} (name : String) (tensor : Tensor) :
    ¬ Holds (fresh p2p).buffersOf name tensor := by
  rintro ⟨key, idx, _, hget⟩
  have hbuffers : (fresh p2p).buffersOf key = [] := by
    by_cases hkey : key = sharedMemoryPoolName
    · simp [buffersOf, fresh, hkey]
    · simp [buffersOf, fresh, hkey]
  rw [hbuffers] at hget
  cases hget

theorem follows_fresh : Follows (fresh true) := by
  refine ⟨_, rfl, ⟨fun name tensor => ?_, fun address => ?_, List.nodup_nil⟩, ?_⟩
  · constructor
    · intro hsome
      cases hsome
    · intro hholds
      exact absurd hholds (not_holds_fresh name tensor)
  · constructor
    · intro hmem
      cases hmem
    · rintro ⟨name, tensor, hholds, _⟩
      exact absurd hholds (not_holds_fresh name tensor)
  · intro name _ tensor _ hholds
    exact absurd hholds (not_holds_fresh name tensor)

theorem Follows.call {c : Call} (h : Follows s) (hshape : KeepsShape backend s c)
    (hreturned : s.call backend c = .returned s') : Follows s' := by
  cases c with
  | unregister name force => exact h.unregisterCheckpoint hreturned
  | register request =>
      have htried := registerCheckpoint_returned hreturned
      unfold KeepsShape at hshape
      simp only at hshape
      split at htried
      · rename_i hshared
        rw [if_pos hshared] at hshape
        refine h.tryShared (fun pool hpool => ?_) htried
        rw [hpool] at hshape
        cases pool with
        | nil => exact hshape
        | cons first rest => exact hshape
      · rename_i hseparate
        rw [if_neg hseparate] at hshape
        exact h.trySeparate hshape.1 hshape.2 htried

/-- A store mirrors one state of the pools only. -/
theorem Mirrors.buffers_eq {buffers buffers' : String → List Tensor} {store : P2PStore}
    (h : Mirrors buffers store) (h' : Mirrors buffers' store) : buffers = buffers' := by
  funext key
  refine List.ext_getElem? fun idx => Option.ext fun tensor => ?_
  rw [← holds_tensorName, ← holds_tensorName, ← h.named, ← h'.named]

/-- A reused pool is mirrored only if it keeps its buffers. -/
theorem Follows.reused_length {request : Request} {first : MemoryBuffer}
    {rest : List MemoryBuffer} (h : Follows s)
    (h' : ∃ store, s'.p2pStore = some store ∧ Mirrors s'.buffersOf store)
    (hpool : s.memoryPool sharedMemoryPoolName = some (first :: rest))
    (hreturned : s.tryShared backend request = .returned s') :
    packedCount backend.host request.files request.namedTensors = (first :: rest).length := by
  obtain ⟨store, hsome, hmirrors, _⟩ := h
  obtain ⟨store', hsome', hmirrors'⟩ := h'
  obtain ⟨pool, loaded, hpool', hload, hpublish⟩ := tryShared_returned hreturned
  obtain rfl : first :: rest = pool := Option.some.inj (hpool.symm.trans hpool')
  obtain rfl : s' = _ := publish_returned (by simp [hsome]) hpublish
  obtain rfl : store = store' := Option.some.inj (hsome.symm.trans hsome')
  have hsame := congrFun (hmirrors.buffers_eq hmirrors') sharedMemoryPoolName
  have hlength := congrArg List.length hsame
  simp only [buffersOf, hpool, Function.update_self, Option.getD_some, List.length_map] at hlength
  rw [← (registerCheckpoint_copied hload).1, hlength]

/-- A registration under the name of the shared pool's user publishes the shared pool
twice. -/
theorem Follows.separate_name {request : Request} (h : Follows s)
    (h' : ∃ store, s'.p2pStore = some store ∧ Mirrors s'.buffersOf store)
    (huser : s.currentUser ≠ sharedMemoryPoolName)
    (hreturned : s.trySeparate backend request = .returned s') :
    request.checkpointName ≠ s.currentUser := by
  intro hname
  obtain ⟨store, hsome, hmirrors, _⟩ := h
  obtain ⟨store', hsome', hmirrors'⟩ := h'
  obtain ⟨_, loaded, _, hpublish⟩ := trySeparate_returned hreturned
  obtain ⟨store₁, pool, hstore, hget, rfl⟩ := registerParameters_returned
    (publish_returned (by simp [hsome]) hpublish)
  obtain rfl : store = store₁ := Option.some.inj (hsome.symm.trans hstore)
  obtain rfl := Option.some.inj hsome'
  obtain ⟨hpool, hne⟩ := getMemoryPool_ok hget
  obtain ⟨memoryBuffer, rest, rfl⟩ := List.exists_cons_of_ne_nil (hne hname)
  simp only [registerName, hname, ne_eq, not_true_eq_false, if_false,
    Function.update_of_ne huser.symm] at hpool
  have hheld : memoryBuffer.buffer.ptr ∈ store.registered := by
    refine (hmirrors.addresses _).mpr ⟨tensorName sharedMemoryPoolName 0, _, ?_, rfl⟩
    simp [holds_tensorName, buffersOf, hpool]
  have honce := hmirrors'.once
  simp only [P2PStore.enter, namedTensors_ptrs, List.map_cons] at honce
  exact List.disjoint_of_nodup_append honce hheld List.mem_cons_self

/-- A call that returns keeps the mirror exactly if it keeps the shape of the shared pool
and the names apart, where new buffers have addresses of their own. -/
theorem Follows.call_iff {c : Call} (h : Follows s)
    (huser : s.currentUser ≠ sharedMemoryPoolName) (hfresh : AllocatesFresh backend.host s)
    (hreturned : s.call backend c = .returned s') :
    (∃ store, s'.p2pStore = some store ∧ Mirrors s'.buffersOf store) ↔
      KeepsShape backend s c := by
  constructor
  · intro h'
    cases c with
    | unregister name force => trivial
    | register request =>
        have htried := registerCheckpoint_returned hreturned
        unfold KeepsShape
        simp only
        split at htried
        · rename_i hshared
          rw [if_pos hshared]
          cases hpool : s.memoryPool sharedMemoryPoolName with
          | none => trivial
          | some pool =>
              cases pool with
              | nil => exact hfresh
              | cons first rest => exact h.reused_length h' hpool htried
        · rename_i hseparate
          rw [if_neg hseparate]
          exact ⟨h.separate_name h' huser htried, hfresh⟩
  · intro hshape
    obtain ⟨store, hsome, hmirrors, _⟩ := h.call hshape hreturned
    exact ⟨store, hsome, hmirrors⟩

end Runs

/-- The call returns normally and keeps the shape of the shared pool. -/
def KeepsMirror (s : ParameterServer) (action : Backend × Call) : Prop :=
  Returns s action ∧ KeepsShape action.1 s action.2

/-- **The mirror.**  In a run of calls that return, each of which keeps the shape of
the shared pool and the names apart, the P2P store always shows exactly the buffers of
the memory pools. -/
theorem p2pStore_mirrors {s : ParameterServer} (h : (machine true).ReachableBy KeepsMirror s) :
    ∃ store, s.p2pStore = some store ∧ Mirrors s.buffersOf store := by
  have hfollows : Follows s := by
    refine h.invariant ?_ ?_
    · exact follows_fresh
    · rintro s ⟨backend, c⟩ t hfollows ⟨⟨s', hreturned⟩, hshape⟩ hstep
      obtain rfl : s' = t := by
        have hstate := Option.some.inj hstep
        rw [← hstate]
        simp [hreturned, Outcome.state]
      exact hfollows.call hshape hreturned
  obtain ⟨store, hsome, hmirrors, _⟩ := hfollows
  exact ⟨store, hsome, hmirrors⟩

/-- The registration of a checkpoint with the shared pool. -/
def inSharedPool (checkpointName : String) (namedTensors : List Parameter) : Request where
  checkpointName := checkpointName
  files := []
  namedTensors := namedTensors
  useSharedMemoryPool := true
  useInplacePinMemory := true

/-- The shared pool is used by a checkpoint of one tensor. -/
def shared : ParameterServer :=
  ((fresh true).call plainBackend
    (.register (inSharedPool "a" [⟨"weight", .float32, [1]⟩]))).state

/-- Its user lets go of it. -/
def idle (backend : Backend) : ParameterServer :=
  (shared.call backend (.unregister "a" false)).state

/-- Another checkpoint uses it. -/
def reused (backend : Backend) (namedTensors : List Parameter) : ParameterServer :=
  ((idle backend).call backend (.register (inSharedPool "b" namedTensors))).state

theorem plainBackend_fresh : AllocatesFresh plainBackend.host (fresh true) := by
  constructor
  · intro k k' h
    simp only [plainBackend] at h
    omega
  · intro name tensor hholds
    exact absurd hholds (not_holds_fresh name tensor)

theorem p2pStore_mirrors_reused :
    ∃ store, (reused plainBackend [⟨"bias", .int64, [2]⟩]).p2pStore = some store ∧
      Mirrors (reused plainBackend [⟨"bias", .int64, [2]⟩]).buffersOf store := by
  have hfirst : KeepsMirror (fresh true)
      (plainBackend, .register (inSharedPool "a" [⟨"weight", .float32, [1]⟩])) :=
    ⟨⟨_, rfl⟩, plainBackend_fresh⟩
  have hsecond : KeepsMirror shared (plainBackend, .unregister "a" false) := ⟨⟨_, rfl⟩, trivial⟩
  have hthird : KeepsMirror (idle plainBackend)
      (plainBackend, .register (inSharedPool "b" [⟨"bias", .int64, [2]⟩])) :=
    ⟨⟨_, rfl⟩, rfl⟩
  exact p2pStore_mirrors (((Machine.ReachableBy.init.step hfirst rfl).step hsecond rfl).step
    hthird rfl)

/-- `plainBackend`, whose next buffers lie behind the first. -/
def nextBackend : Backend :=
  { plainBackend with host := { plainBackend.host with allocate := fun k => 4096 * (k + 2) } }

theorem holds_shared {name : String} {tensor : Tensor} (h : Holds shared.buffersOf name tensor) :
    tensor.ptr = 4096 := by
  have hmemory : shared.memoryPool = Function.update (fresh true).memoryPool sharedMemoryPoolName
      (some [⟨⟨4096, 256⟩, 256, [⟨"weight", .float32, [1], 256⟩], false⟩]) := rfl
  have hbuffers : shared.buffersOf =
      Function.update (fresh true).buffersOf sharedMemoryPoolName [⟨4096, 256⟩] :=
    buffersOf_update hmemory
  rw [hbuffers, holds_update] at h
  rcases h with ⟨idx, _, hget⟩ | ⟨hholds, _⟩
  · have hmem := List.mem_of_getElem? hget
    obtain rfl := List.mem_singleton.mp hmem
    rfl
  · exact absurd hholds (not_holds_fresh name tensor)

theorem nextBackend_fresh : AllocatesFresh nextBackend.host shared := by
  constructor
  · intro k k' h
    simp only [nextBackend] at h
    omega
  · intro name tensor hholds k
    rw [holds_shared hholds]
    simp only [nextBackend]
    omega

/-- A shared pool that is used again without any tensors forgets its buffers, and the
store keeps them. -/
theorem p2pStore_not_mirrors :
    ¬ ∀ s, (machine true).ReachableBy
        (fun s action => Returns s action ∧ AllocatesFresh action.1.host s) s →
      ∃ store, s.p2pStore = some store ∧ Mirrors s.buffersOf store := by
  intro hmirrors
  have hreach : (machine true).ReachableBy
      (fun s action => Returns s action ∧ AllocatesFresh action.1.host s)
      (reused nextBackend []) := by
    have hfirst : Returns (fresh true)
        (plainBackend, .register (inSharedPool "a" [⟨"weight", .float32, [1]⟩])) := ⟨_, rfl⟩
    have hsecond : Returns shared (nextBackend, .unregister "a" false) := ⟨_, rfl⟩
    have hthird : Returns (idle nextBackend)
        (nextBackend, .register (inSharedPool "b" [])) := ⟨_, rfl⟩
    exact ((Machine.ReachableBy.init.step ⟨hfirst, plainBackend_fresh⟩ rfl).step
      ⟨hsecond, nextBackend_fresh⟩ rfl).step ⟨hthird, nextBackend_fresh⟩ rfl
  obtain ⟨store, hstore, hmirrors⟩ := hmirrors _ hreach
  have hkept : store.namedTensors (tensorName sharedMemoryPoolName 0) = some ⟨4096, 256⟩ := by
    obtain rfl := Option.some.inj hstore
    rfl
  have hholds := (hmirrors.named _ _).mp hkept
  rw [holds_tensorName] at hholds
  cases hholds

end ParameterServer

end CheckpointEngine.Registry
