/-
  `Registry.Atomicity`: what a registration that raises leaves behind.

  The `except` block cleans up by name.  It does not know how far the `try` block has
  come, so it also removes what an earlier call has registered under the name; and
  what the `try` block has stored itself it does not get rid of, since its first step
  makes its second one fail.
-/
import CheckpointEngine.Registry.ParameterServer

set_option autoImplicit false

namespace CheckpointEngine.Registry

open CheckpointEngine.Foundation

/-! ## Taking tensors out of the P2P store -/

/-- The store has all the names, and the engine lets go of their addresses. -/
def P2PStore.Releases (backend : Backend) (store : P2PStore) (names : List String) : Prop :=
  ∃ addresses, store.addresses names = .ok addresses ∧ backend.unregisters addresses = true

theorem P2PStore.addresses_ok {store : P2PStore} {names : List String} {addresses : List Nat}
    (h : store.addresses names = .ok addresses) :
    names.map (fun name => (store.namedTensors name).map Tensor.ptr) = addresses.map some := by
  induction names generalizing addresses with
  | nil =>
      obtain rfl := Except.ok.inj h
      rfl
  | cons name rest ih =>
      unfold P2PStore.addresses at h
      cases hname : store.namedTensors name with
      | none => rw [hname] at h; cases h
      | some tensor =>
          rw [hname] at h
          obtain ⟨others, hothers, h⟩ := bind_eq_ok.mp h
          obtain rfl := Except.ok.inj h
          simp [hname, ih hothers]

/-- Tensors that are in the store under their names have their addresses there. -/
theorem P2PStore.addresses_of_named {store : P2PStore} {tensors : List (String × Tensor)}
    (h : ∀ entry ∈ tensors, store.namedTensors entry.1 = some entry.2) :
    store.addresses (tensors.map Prod.fst) = .ok (tensors.map (·.2.ptr)) := by
  induction tensors with
  | nil => rfl
  | cons entry rest ih =>
      have hrest := ih fun other hother => h other (List.mem_cons_of_mem _ hother)
      rw [List.map_cons, P2PStore.addresses, h entry List.mem_cons_self]
      simp only [hrest]
      rfl

theorem P2PStore.unregisterNamedTensors_ok {backend : Backend} {store store' : P2PStore}
    {names : List String} (h : store.unregisterNamedTensors backend names = .ok store') :
    ∃ addresses, store.addresses names = .ok addresses ∧
      backend.unregisters addresses = true ∧
      store' = ⟨fun name => if name ∈ names then none else store.namedTensors name,
        store.registered.filter (· ∉ addresses)⟩ := by
  unfold P2PStore.unregisterNamedTensors at h
  obtain ⟨addresses, haddresses, h⟩ := bind_eq_ok.mp h
  split at h
  · rename_i hreleased
    exact ⟨addresses, haddresses, hreleased, (Except.ok.inj h).symm⟩
  · cases h

theorem P2PStore.releases_iff {backend : Backend} {store : P2PStore} {names : List String} :
    store.Releases backend names ↔
      ∃ store', store.unregisterNamedTensors backend names = .ok store' := by
  constructor
  · rintro ⟨addresses, haddresses, hreleased⟩
    unfold P2PStore.unregisterNamedTensors
    rw [haddresses]
    exact ⟨_, if_pos hreleased⟩
  · rintro ⟨store', h⟩
    obtain ⟨addresses, haddresses, hreleased, _⟩ := P2PStore.unregisterNamedTensors_ok h
    exact ⟨addresses, haddresses, hreleased⟩

namespace ParameterServer

variable {backend : Backend} {s : ParameterServer}

/-- The tensors of the pool that the name stands for can be taken out of the P2P store,
and there are some. -/
def Unpublishes (backend : Backend) (s : ParameterServer) (name : String) : Prop :=
  ∃ store pool, s.p2pStore = some store ∧ s.getMemoryPool name = .ok pool ∧ pool ≠ [] ∧
    store.Releases backend ((namedTensors (s.registerName name) pool).map Prod.fst)

theorem namedTensors_names_ne {name : String} {pool : List MemoryBuffer} (h : pool ≠ []) :
    (namedTensors name pool).map Prod.fst ≠ [] := by
  obtain ⟨memoryBuffer, rest, rfl⟩ := List.exists_cons_of_ne_nil h
  simp [namedTensors]

theorem not_unpublishes_of_none {name : String} (h : s.p2pStore = none) :
    ¬ Unpublishes backend s name := by
  rintro ⟨_, _, hsome, _⟩
  rw [h] at hsome
  cases hsome

theorem not_unpublishes_of_error {name : String} {error : PyError}
    (h : s.getMemoryPool name = .error error) : ¬ Unpublishes backend s name := by
  rintro ⟨_, _, _, hok, _⟩
  rw [h] at hok
  cases hok

theorem not_unpublishes_of_nil {name : String} (h : s.getMemoryPool name = .ok []) :
    ¬ Unpublishes backend s name := by
  rintro ⟨_, _, _, hok, hne, _⟩
  obtain rfl := Except.ok.inj (h.symm.trans hok)
  exact hne rfl

theorem unpublishes_iff {name : String} {store : P2PStore} {pool : List MemoryBuffer}
    (hstore : s.p2pStore = some store) (hpool : s.getMemoryPool name = .ok pool)
    (hne : pool ≠ []) :
    Unpublishes backend s name ↔
      store.Releases backend ((namedTensors (s.registerName name) pool).map Prod.fst) := by
  constructor
  · rintro ⟨store', pool', hsome, hok, _, hreleases⟩
    obtain rfl := Option.some.inj (hstore.symm.trans hsome)
    obtain rfl : pool = pool' := Except.ok.inj (hpool.symm.trans hok)
    exact hreleases
  · intro hreleases
    exact ⟨store, pool, hstore, hpool, hne, hreleases⟩

/-- Taking the tensors of a name out of the store changes nothing else, and it changes
the store exactly if there are tensors to take out. -/
theorem unregisterParameters_cases (backend : Backend) (s : ParameterServer) (name : String) :
    (∃ error, s.unregisterParametersFromP2pStore backend name = .error error ∧
        ¬ Unpublishes backend s name) ∨
      (s.unregisterParametersFromP2pStore backend name = .ok s ∧
        s.getMemoryPool name = .ok [] ∧ ¬ Unpublishes backend s name) ∨
      (∃ store, s.unregisterParametersFromP2pStore backend name =
          .ok { s with p2pStore := some store } ∧
        Unpublishes backend s name ∧ s.p2pStore ≠ some store ∧
        ∃ pool, s.getMemoryPool name = .ok pool ∧
          ∀ key ∈ (namedTensors (s.registerName name) pool).map Prod.fst,
            store.namedTensors key = none) := by
  unfold unregisterParametersFromP2pStore
  cases hstore : s.p2pStore with
  | none => exact .inl ⟨_, rfl, not_unpublishes_of_none hstore⟩
  | some store =>
      cases hpool : s.getMemoryPool name with
      | error error => exact .inl ⟨error, rfl, not_unpublishes_of_error hpool⟩
      | ok pool =>
          cases pool with
          | nil => exact .inr (.inl ⟨rfl, rfl, not_unpublishes_of_nil hpool⟩)
          | cons first rest =>
              have hne : first :: rest ≠ [] := List.cons_ne_nil first rest
              have hnames := @namedTensors_names_ne (s.registerName name) _ hne
              rw [unpublishes_iff hstore hpool hne, P2PStore.releases_iff]
              change (∃ error, (store.unregisterNamedTensors backend _).bind _ = _ ∧ _) ∨
                ((store.unregisterNamedTensors backend _).bind _ = _ ∧ _) ∨
                ∃ store', (store.unregisterNamedTensors backend _).bind _ = _ ∧ _
              generalize hkeys : (namedTensors (s.registerName name) (first :: rest)).map Prod.fst =
                names at hnames ⊢
              cases hresult : store.unregisterNamedTensors backend names with
              | error error =>
                  refine .inl ⟨error, rfl, ?_⟩
                  rintro ⟨store', hok⟩
                  cases hok
              | ok store' =>
                  obtain ⟨addresses, haddresses, _, rfl⟩ :=
                    P2PStore.unregisterNamedTensors_ok hresult
                  refine .inr (.inr ⟨_, rfl, ⟨_, rfl⟩, ?_, first :: rest, rfl, ?_⟩)
                  · -- a name that was there is gone
                    intro heq
                    obtain ⟨key, others, rfl⟩ := List.exists_cons_of_ne_nil hnames
                    have hptr := P2PStore.addresses_ok haddresses
                    rw [Option.some.inj heq] at hptr
                    cases addresses <;> simp at hptr
                  · rw [hkeys]
                    intro key hkey
                    simp [hkey]

/-- What is taken out of the store cannot be taken out again. -/
theorem not_unpublishes_again {name : String} {store : P2PStore} {pool : List MemoryBuffer}
    (hpool : s.getMemoryPool name = .ok pool)
    (hgone : ∀ key ∈ (namedTensors (s.registerName name) pool).map Prod.fst,
      store.namedTensors key = none) :
    ¬ Unpublishes backend { s with p2pStore := some store } name := by
  rintro ⟨store', pool', hsome, hok, hne, addresses, haddresses, _⟩
  obtain rfl := Option.some.inj hsome
  obtain rfl : pool = pool' := Except.ok.inj (hpool.symm.trans hok)
  have hptr := P2PStore.addresses_ok haddresses
  obtain ⟨key, others, hkeys⟩ := List.exists_cons_of_ne_nil
    (@namedTensors_names_ne (s.registerName name) pool hne)
  have hkey : store.namedTensors key = none := hgone key (hkeys ▸ List.mem_cons_self)
  change ((namedTensors (s.registerName name) pool).map Prod.fst).map _ = _ at hptr
  rw [hkeys, List.map_cons, hkey] at hptr
  cases addresses <;> simp at hptr

/-- A name whose pool is empty has that pool to itself. -/
theorem getMemoryPool_nil {name : String} (h : s.getMemoryPool name = .ok []) :
    name ≠ s.currentUser ∧ s.memoryPool name = some [] := by
  unfold getMemoryPool at h
  split at h
  · split at h
    · cases h
    · cases h
    · rename_i pool hne _
      exact absurd (Except.ok.inj h) hne
  · rename_i hname
    split at h
    · rename_i pool hpool
      exact ⟨hname, by rw [hpool, Except.ok.inj h]⟩
    · cases h

theorem getMemoryPool_own {name : String} {pool : List MemoryBuffer}
    (hname : name ≠ s.currentUser) (hpool : s.memoryPool name = some pool) :
    s.getMemoryPool name = .ok pool := by
  simp [getMemoryPool, hname, hpool]

/-! ## The clean-up -/

/-- The clean-up of a registration that has stored nothing removes something else:
tensors from the P2P store, the user of the shared pool, or the name's own pool. -/
def Removes (backend : Backend) (s : ParameterServer) (request : Request) : Prop :=
  let name := request.checkpointName
  ((request.useSharedMemoryPool = false ∨ name ≠ s.currentUser) ∧ Unpublishes backend s name) ∨
    (name = s.currentUser ∧ s.currentUser ≠ "" ∧
      (request.useSharedMemoryPool = true ∨ s.p2pStore = none)) ∨
    (name ≠ s.currentUser ∧ ∃ pool, s.memoryPool name = some pool ∧
      (s.p2pStore = none ∨ pool = []) ∧ unpinAll backend pool = none)

theorem dropCheckpoint_store (backend : Backend) (s : ParameterServer) (name : String) :
    (s.dropCheckpoint backend name).state.p2pStore = s.p2pStore := by
  unfold dropCheckpoint
  split
  · split <;> rfl
  · split <;> rfl

/-- A pool of its own is dropped unless one of its buffers cannot be unpinned. -/
theorem dropCheckpoint_own {name : String} (hname : name ≠ s.currentUser)
    {pool : List MemoryBuffer} (hpool : s.memoryPool name = some pool) :
    (s.dropCheckpoint backend name).state = s ↔ unpinAll backend pool ≠ none := by
  unfold dropCheckpoint
  rw [if_neg hname, hpool, Option.getD_some]
  cases unpinAll backend pool with
  | some error => simp [Outcome.state]
  | none =>
      simp only [Outcome.state, ne_eq, not_true_eq_false, iff_false]
      intro heq
      have hsame := congrFun (congrArg memoryPool heq) name
      rw [hpool] at hsame
      simp at hsame

theorem unregisterParameters_nil {name : String} (hstore : s.p2pStore.isSome)
    (hpool : s.getMemoryPool name = .ok []) :
    s.unregisterParametersFromP2pStore backend name = .ok s := by
  obtain ⟨store, hstore⟩ := Option.isSome_iff_exists.mp hstore
  unfold unregisterParametersFromP2pStore
  rw [hstore, hpool]
  rfl

/-- Unregistering a name with a pool of its own. -/
theorem unregisterCheckpoint_own {name : String} (hname : name ≠ s.currentUser)
    {pool : List MemoryBuffer} (hpool : s.memoryPool name = some pool) :
    (s.unregisterCheckpoint backend name false).state = s ↔
      ¬ (Unpublishes backend s name ∨
        (s.p2pStore = none ∨ pool = []) ∧ unpinAll backend pool = none) := by
  have hget := getMemoryPool_own hname hpool
  have hdrop := @dropCheckpoint_own backend s name hname pool hpool
  unfold unregisterCheckpoint
  rw [if_neg (by simp [hpool]), if_neg fun h => hname h.1]
  cases hstore : s.p2pStore with
  | none =>
      have hunknown : ¬ Unpublishes backend s name := not_unpublishes_of_none hstore
      simp only [Option.isSome_none, Bool.false_eq_true, if_false, hunknown, false_or,
        true_or, true_and]
      exact hdrop
  | some store =>
      simp only [Option.isSome_some, if_true, reduceCtorEq, false_or]
      rcases unregisterParameters_cases backend s name with
        ⟨error, hparams, hnot⟩ | ⟨hparams, hempty, hnot⟩ | ⟨store', hparams, hpub, hne, _⟩
      · have hne : pool ≠ [] := by
          rintro rfl
          rw [unregisterParameters_nil (by rw [hstore]; rfl) hget] at hparams
          cases hparams
        simp [hparams, Outcome.state, hnot, hne]
      · obtain rfl := Except.ok.inj (hget.symm.trans hempty)
        simp only [hparams, hnot, false_or, true_and]
        exact hdrop
      · -- the store has changed, whatever becomes of the pool
        simp only [hparams, hpub, true_or, not_true_eq_false, iff_false]
        intro heq
        apply hne
        rw [← congrArg p2pStore heq]
        exact dropCheckpoint_store backend _ name

/-- Unregistering without force, seen from its result. -/
theorem unregisterCheckpoint_unforced (backend : Backend) (s : ParameterServer) (name : String) :
    (s.unregisterCheckpoint backend name false).state = s ↔
      ¬ ((name ≠ s.currentUser ∧ Unpublishes backend s name) ∨
        (name = s.currentUser ∧ s.currentUser ≠ "") ∨
        (name ≠ s.currentUser ∧ ∃ pool, s.memoryPool name = some pool ∧
          (s.p2pStore = none ∨ pool = []) ∧ unpinAll backend pool = none)) := by
  by_cases hname : name = s.currentUser
  · -- the name lets go of the shared pool
    unfold unregisterCheckpoint
    rw [if_neg (by simp [hname]), if_pos ⟨hname, rfl⟩]
    simp only [Outcome.state, ne_eq, hname, not_true_eq_false, false_and, or_false, false_or,
      true_and, not_not]
    constructor
    · intro heq
      exact (congrArg currentUser heq).symm
    · intro hempty
      rw [← hempty]
  · cases hpool : s.memoryPool name with
    | none =>
        have hunknown : ¬ Unpublishes backend s name :=
          not_unpublishes_of_error (by simp [getMemoryPool, hname, hpool]; rfl)
        simp [unregisterCheckpoint, hpool, Outcome.state, hname, hunknown]
    | some pool =>
        rw [unregisterCheckpoint_own hname hpool]
        simp [hname]

/-- Where no tensors can be taken out of the store, unregistering leaves it alone. -/
theorem unregisterCheckpoint_store {name : String} (h : ¬ Unpublishes backend s name) :
    (s.unregisterCheckpoint backend name false).state.p2pStore = s.p2pStore := by
  unfold unregisterCheckpoint
  split
  · rfl
  · split
    · rfl
    · split
      · rcases unregisterParameters_cases backend s name with
          ⟨error, hparams, _⟩ | ⟨hparams, _, _⟩ | ⟨store, _, hpub, _⟩
        · rw [hparams]
          rfl
        · rw [hparams]
          exact dropCheckpoint_store backend s name
        · exact absurd hpub h
      · exact dropCheckpoint_store backend s name

/-- The clean-up of a call that has stored nothing leaves the state alone exactly if it
finds nothing to remove. -/
theorem rollback_unstored (backend : Backend) (s : ParameterServer) (request : Request)
    (error : PyError) :
    (s.rollback backend request error).state = s ↔ ¬ Removes backend s request := by
  rw [rollback_state]
  cases hstore : s.p2pStore with
  | none =>
      have hunknown : ¬ Unpublishes backend s request.checkpointName :=
        not_unpublishes_of_none hstore
      simp only [Option.isSome_none, Bool.false_and, Bool.false_eq_true, if_false,
        unregisterCheckpoint_unforced, Removes, hstore, hunknown, and_false, false_or, or_true,
        and_true]
  | some store =>
      cases hshared : request.useSharedMemoryPool with
      | true =>
          simp only [Option.isSome_some, Bool.not_true, Bool.and_false, Bool.false_eq_true,
            if_false, unregisterCheckpoint_unforced, Removes, hstore, hshared, reduceCtorEq,
            false_or, true_or, and_true]
      | false =>
          simp only [Option.isSome_some, Bool.not_false, Bool.and_self, if_true, Removes, hshared,
            hstore, true_or, true_and, reduceCtorEq, or_self, and_false, false_or]
          rcases unregisterParameters_cases backend s request.checkpointName with
            ⟨error, hparams, hnot⟩ | ⟨hparams, hempty, hnot⟩ |
            ⟨store', hparams, hpub, hne, pool, hpool, hgone⟩
          · have hkept : ¬ (request.checkpointName ≠ s.currentUser ∧ ∃ pool,
                s.memoryPool request.checkpointName = some pool ∧ pool = [] ∧
                  unpinAll backend pool = none) := by
              rintro ⟨hname, pool, hpool, rfl, _⟩
              rw [unregisterParameters_nil (by rw [hstore]; rfl) (getMemoryPool_own hname hpool)]
                at hparams
              cases hparams
            simp only [hparams, hnot, false_or, true_iff]
            exact hkept
          · -- the name's own pool is empty, and it is deleted
            obtain ⟨hname, hpool⟩ := getMemoryPool_nil hempty
            rw [hparams]
            simp only [unregisterCheckpoint_unforced, hstore, reduceCtorEq, false_or]
            have hunpin : unpinAll backend [] = none := rfl
            simp [hname, hpool, hnot, hunpin]
          · -- the second attempt to take the tensors out fails
            have hagain : ¬ Unpublishes backend { s with p2pStore := some store' }
                request.checkpointName := not_unpublishes_again hpool hgone
            rw [hparams]
            simp only [hpub, true_or, not_true_eq_false, iff_false]
            intro heq
            apply hne
            rw [← congrArg p2pStore heq]
            exact unregisterCheckpoint_store hagain

/-- Where the tensors of a name cannot be taken out of the store, its pool stays. -/
theorem unregisterCheckpoint_pool {name : String} (hstore : s.p2pStore.isSome)
    (hnot : ¬ Unpublishes backend s name) (hne : s.getMemoryPool name ≠ .ok []) :
    (s.unregisterCheckpoint backend name false).state.memoryPool = s.memoryPool := by
  unfold unregisterCheckpoint
  split
  · rfl
  · split
    · rfl
    · rcases unregisterParameters_cases backend s name with
        ⟨error, hparams, _⟩ | ⟨_, hempty, _⟩ | ⟨_, _, hpub, _⟩
      · rw [hparams]
        rfl
      · exact absurd hempty hne
      · exact absurd hpub hnot

/-! ## The `try` block -/

/-- The call fails in its checks, or while it loads the checkpoint. -/
def FailsUnstored (backend : Backend) (s : ParameterServer) (request : Request) : Prop :=
  if request.useSharedMemoryPool then
    s.currentUser ≠ "" ∨ s.memoryPool sharedMemoryPoolName = none ∨
      ∃ pool error, s.memoryPool sharedMemoryPoolName = some pool ∧
        Registry.registerCheckpoint backend.host request.files request.namedTensors pool false =
          .error error
  else
    s.memoryPool request.checkpointName ≠ none ∨
      ∃ error, Registry.registerCheckpoint backend.host request.files request.namedTensors []
        (request.useInplacePinMemory && backend.supportsInplacePin) = .error error

/-- The first use of the shared pool, by a checkpoint without any tensors. -/
def FirstUseEmpty (s : ParameterServer) (request : Request) : Prop :=
  request.useSharedMemoryPool = true ∧ s.currentUser = "" ∧
    s.memoryPool sharedMemoryPoolName = some [] ∧ request.files = [] ∧
    request.namedTensors = []

/-- A publication that raises has a store to publish to and something to publish. -/
theorem publish_raised {name : String} {wanted : Bool} {error : PyError} {s' : ParameterServer}
    (h : s.publish backend name wanted = .raised error s') :
    wanted = true ∧ s.p2pStore.isSome ∧ s.getMemoryPool name ≠ .ok [] ∧
      s'.memoryPool = s.memoryPool ∧ s'.currentUser = s.currentUser ∧ s'.p2pStore.isSome ∧
      ∀ e, s.getMemoryPool name = .error e → s' = s := by
  unfold publish at h
  split at h
  · rename_i hwanted
    obtain ⟨hstore, hwanted⟩ := Bool.and_eq_true_iff.mp hwanted
    obtain ⟨store, hstore⟩ := Option.isSome_iff_exists.mp hstore
    unfold registerParametersToP2pStore at h
    rw [hstore] at h
    cases hpool : s.getMemoryPool name with
    | error e =>
        rw [hpool] at h
        obtain ⟨_, rfl⟩ := Outcome.raised.inj h
        simp [hwanted, hstore]
    | ok pool =>
        rw [hpool] at h
        simp only at h
        split at h
        · cases h
        · rename_i hne
          split at h
          · cases h
          · obtain ⟨_, rfl⟩ := Outcome.raised.inj h
            simp only [List.isEmpty_iff] at hne
            simp [hwanted, hstore, hne]
  · cases h

/-- Where a `try` block that raises has come to. -/
inductive Tried (backend : Backend) (s : ParameterServer) (request : Request) :
    ParameterServer → Prop where
  | unstored (hfails : FailsUnstored backend s request) : Tried backend s request s
  | firstUseEmpty (hempty : FirstUseEmpty s request) :
      Tried backend s request { s with currentUser := request.checkpointName }
  | shared {s' : ParameterServer} {loaded : List MemoryBuffer}
      (hshared : request.useSharedMemoryPool = true) (hfails : ¬ FailsUnstored backend s request)
      (hbefore : s.memoryPool sharedMemoryPoolName = some []) (hne : loaded ≠ [])
      (hfiles : ¬ (request.files = [] ∧ request.namedTensors = []))
      (hpool : s'.memoryPool sharedMemoryPoolName = some loaded)
      (huser : s'.currentUser = request.checkpointName) : Tried backend s request s'
  | separate {s' : ParameterServer} {loaded : List MemoryBuffer}
      (hshared : request.useSharedMemoryPool = false) (hfails : ¬ FailsUnstored backend s request)
      (hbefore : s.memoryPool request.checkpointName = none)
      (hpool : s'.memoryPool request.checkpointName = some loaded)
      (hstore : s'.p2pStore.isSome) (hget : s'.getMemoryPool request.checkpointName ≠ .ok []) :
      Tried backend s request s'

theorem tryShared_raised {request : Request} {error : PyError} {s' : ParameterServer}
    (hshared : request.useSharedMemoryPool = true)
    (h : s.tryShared backend request = .raised error s') : Tried backend s request s' := by
  unfold tryShared at h
  simp only at h
  split at h
  · rename_i huser
    obtain ⟨_, rfl⟩ := Outcome.raised.inj h
    exact .unstored (by simp [FailsUnstored, hshared, huser])
  · rename_i huser
    split at h
    · rename_i hpool
      obtain ⟨_, rfl⟩ := Outcome.raised.inj h
      exact .unstored (by simp [FailsUnstored, hshared, hpool])
    · rename_i pool hpool
      split at h
      · rename_i error' hload
        obtain ⟨_, rfl⟩ := Outcome.raised.inj h
        exact .unstored (by simp [FailsUnstored, hshared, hpool, hload])
      · rename_i loaded hload
        obtain ⟨hwanted, _, _, hmemory, huser', _, hsame⟩ := publish_raised h
        obtain rfl : pool = [] := List.isEmpty_iff.mp hwanted
        have hfails : ¬ FailsUnstored backend s request := by
          simp [FailsUnstored, hshared, huser, hpool, hload]
        cases loaded with
        | nil =>
            -- the pool stays empty, and there is nothing to publish
            obtain ⟨hfiles, htensors⟩ := (registerCheckpoint_copied hload).2.1 rfl
            obtain rfl := hsame _ (by simp [getMemoryPool]; rfl)
            have hupdate : Function.update s.memoryPool sharedMemoryPoolName (some []) =
                s.memoryPool := by
              rw [← hpool]
              exact Function.update_eq_self _ _
            rw [hupdate]
            exact .firstUseEmpty ⟨hshared, not_not.mp huser, hpool, hfiles, htensors⟩
        | cons first rest =>
            refine .shared hshared hfails hpool (List.cons_ne_nil first rest) ?_ ?_ huser'
            · rintro ⟨hfiles, htensors⟩
              rw [hfiles, htensors] at hload
              cases hload
            · simp [hmemory]

theorem trySeparate_raised {request : Request} {error : PyError} {s' : ParameterServer}
    (hshared : request.useSharedMemoryPool = false)
    (h : s.trySeparate backend request = .raised error s') : Tried backend s request s' := by
  unfold trySeparate at h
  simp only at h
  split at h
  · rename_i hpool
    obtain ⟨_, rfl⟩ := Outcome.raised.inj h
    exact .unstored (by simp [FailsUnstored, hshared, hpool])
  · rename_i hpool
    split at h
    · rename_i error' hload
      obtain ⟨_, rfl⟩ := Outcome.raised.inj h
      exact .unstored (by simp [FailsUnstored, hshared, hload])
    · rename_i loaded hload
      obtain ⟨_, _, hget, hmemory, huser, hstore, _⟩ := publish_raised h
      have hfails : ¬ FailsUnstored backend s request := by
        simp [FailsUnstored, hshared, hload, not_not.mp hpool]
      have hstored : s'.memoryPool request.checkpointName = some loaded := by
        rw [hmemory]
        exact Function.update_self ..
      refine .separate hshared hfails (not_not.mp hpool) hstored hstore ?_
      · simpa only [getMemoryPool, hmemory, huser] using hget

/-! ## Atomicity -/

/-- What a `try` block has stored, the clean-up does not remove. -/
theorem rollback_separate {request : Request} {error : PyError} {s' : ParameterServer}
    (hshared : request.useSharedMemoryPool = false) (hstore : s'.p2pStore.isSome)
    (hget : s'.getMemoryPool request.checkpointName ≠ .ok []) :
    (s'.rollback backend request error).state.memoryPool = s'.memoryPool := by
  rw [rollback_state]
  simp only [hstore, hshared, Bool.not_false, Bool.and_self, if_true]
  rcases unregisterParameters_cases backend s' request.checkpointName with
    ⟨_, hparams, _⟩ | ⟨_, hempty, _⟩ | ⟨store, hparams, _, _, pool, hpool, hgone⟩
  · rw [hparams]
  · exact absurd hempty hget
  · rw [hparams]
    exact unregisterCheckpoint_pool (s := { s' with p2pStore := some store }) rfl
      (not_unpublishes_again hpool hgone) hget

/-- After a shared registration the clean-up only lets go of the shared pool. -/
theorem rollback_shared {request : Request} {s' : ParameterServer}
    (hshared : request.useSharedMemoryPool = true) (huser : s'.currentUser = request.checkpointName)
    (error : PyError) :
    (s'.rollback backend request error).state = { s' with currentUser := "" } := by
  rw [rollback_state]
  simp only [hshared, Bool.not_true, Bool.and_false, Bool.false_eq_true, if_false,
    unregisterCheckpoint]
  rw [if_neg (by simp [huser]), if_pos (by simp [huser])]
  rfl

/-- A registration that raises has tried and cleaned up. -/
theorem registerCheckpoint_raised {request : Request} {error : PyError} {s' : ParameterServer}
    (h : s.registerCheckpoint backend request = .raised error s') :
    ∃ error₁ s₁, Tried backend s request s₁ ∧ s' = (s₁.rollback backend request error₁).state := by
  unfold registerCheckpoint at h
  simp only at h
  split at h
  · cases h
  · rename_i error₁ s₁ htry
    refine ⟨error₁, s₁, ?_, (congrArg Outcome.state h).symm⟩
    split at htry
    · rename_i hshared
      exact tryShared_raised hshared htry
    · rename_i hshared
      exact trySeparate_raised (Bool.eq_false_iff.mpr hshared) htry

/-- A registration leaves no trace of itself or of its clean-up. -/
def LeavesNoTrace (backend : Backend) (s : ParameterServer) (request : Request) : Prop :=
  FailsUnstored backend s request ∧ ¬ Removes backend s request ∨ FirstUseEmpty s request

/-- **Atomicity.**  A registration that raises leaves the state as it was exactly if it
fails before it has stored anything and its clean-up finds nothing to remove, or if it
is the first use of the shared pool by a checkpoint without tensors. -/
theorem registerCheckpoint_atomic_iff (backend : Backend) (s : ParameterServer)
    (request : Request) (error : PyError) (s' : ParameterServer)
    (h : s.registerCheckpoint backend request = .raised error s') :
    s' = s ↔ LeavesNoTrace backend s request := by
  obtain ⟨error₁, s₁, htried, rfl⟩ := registerCheckpoint_raised h
  cases htried with
  | unstored hfails =>
      rw [rollback_unstored]
      constructor
      · intro hremoves
        exact .inl ⟨hfails, hremoves⟩
      · rintro (⟨_, hremoves⟩ | ⟨hshared, huser, hpool, hfiles, htensors⟩)
        · exact hremoves
        · -- such a call does not fail before it has stored the empty pool
          simp [FailsUnstored, hshared, huser, hpool, hfiles, htensors,
            Registry.registerCheckpoint] at hfails
  | firstUseEmpty hempty =>
      refine ⟨fun _ => .inr hempty, fun _ => ?_⟩
      obtain ⟨hshared, huser, _⟩ := hempty
      rw [rollback_shared hshared rfl, ← huser]
  | @shared s₁ loaded hshared hfails hbefore hne hfiles hpool huser =>
      constructor
      · intro heq
        rw [rollback_shared hshared huser] at heq
        have hafter := congrFun (congrArg memoryPool heq) sharedMemoryPoolName
        rw [hbefore] at hafter
        exact absurd (Option.some.inj (hpool.symm.trans hafter)) hne
      · rintro (⟨hfails', _⟩ | ⟨_, _, _, hfiles'⟩)
        · exact absurd hfails' hfails
        · exact absurd hfiles' hfiles
  | @separate s₁ loaded hshared hfails hbefore hpool hstore hget =>
      constructor
      · intro heq
        have hpools : (s₁.rollback backend request error₁).state.memoryPool = s₁.memoryPool :=
          rollback_separate hshared hstore hget
        have hafter := congrFun hpools request.checkpointName
        rw [heq, hbefore, hpool] at hafter
        cases hafter
      · rintro (⟨hfails', _⟩ | ⟨hshared', _⟩)
        · exact absurd hfails' hfails
        · rw [hshared] at hshared'
          cases hshared'

/-- Everything outside succeeds, and there are no files. -/
def plainBackend : Backend where
  host :=
    { loadCheckpoint := fun _ => .ok []
      safetensors := fun _ => .error (.runtimeError "no such file")
      allocate := fun k => 4096 * (k + 1)
      pinRaises := fun _ => none }
  supportsInplacePin := true
  registers _ := true
  unregisters _ := true
  unpinRaises _ := none

/-- The registration of a checkpoint of one tensor with a memory pool of its own. -/
def oneTensor (checkpointName : String) : Request where
  checkpointName := checkpointName
  files := []
  namedTensors := [⟨"weight", .float32, [1]⟩]
  useSharedMemoryPool := false
  useInplacePinMemory := true

/-- A server without a P2P store on which a checkpoint is registered. -/
def occupied : ParameterServer :=
  ((fresh false).call plainBackend (.register (oneTensor "a"))).state

theorem registerCheckpoint_atomic_iff_occupied :
    (occupied.registerCheckpoint plainBackend (oneTensor "a")).state = occupied ↔
      LeavesNoTrace plainBackend occupied (oneTensor "a") :=
  registerCheckpoint_atomic_iff plainBackend occupied (oneTensor "a")
    (.assertionError "checkpoint a already registered") _ rfl

/-- Registering a name again raises, and the checkpoint registered first is gone. -/
theorem registerCheckpoint_not_atomic :
    ¬ ∀ s, (machine false).Reachable s → ∀ backend request error s',
      s.registerCheckpoint backend request = .raised error s' → s' = s := by
  intro hatomic
  have hreach : (machine false).Reachable occupied :=
    Machine.Reachable.init.step
      (show (machine false).step (fresh false) (plainBackend, .register (oneTensor "a")) =
        some occupied from rfl)
  have hsame := hatomic occupied hreach plainBackend (oneTensor "a")
    (.assertionError "checkpoint a already registered") _ rfl
  have hpool := congrFun (congrArg memoryPool hsame) "a"
  revert hpool
  decide

end ParameterServer

end CheckpointEngine.Registry
