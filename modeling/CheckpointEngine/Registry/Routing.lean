/-
  `Registry.Routing`: which pool a checkpoint name stands for.

  Three things say whose a pool is: the keys of `_memory_pool`, the key of the shared
  pool among them, and the name of the shared pool's user.  Nothing keeps the names
  apart: the shared pool's key can be unregistered like a checkpoint, a name can be
  registered in both modes, a checkpoint without tensors can use the shared pool, and
  the empty name stands for no user.

  The pools are routed right as long as no call takes one of these branches, and each
  condition on a call below is also necessary.
-/
import CheckpointEngine.Registry.Mirror

set_option autoImplicit false

namespace CheckpointEngine.Registry

open CheckpointEngine.Foundation

namespace ParameterServer

/-! ## What the pools and the user are to say -/

/-- The name of the checkpoint a call is for. -/
def Call.checkpointName : Call → String
  | .register request => request.checkpointName
  | .unregister checkpointName _ => checkpointName

/-- Every registered name has one registration, and `_get_memory_pool` finds it. -/
structure Routes (s : ParameterServer) : Prop where
  sharedKey : s.memoryPool sharedMemoryPoolName ≠ none
  initialised : s.currentUser ≠ "" →
    ∃ pool, s.memoryPool sharedMemoryPoolName = some pool ∧ pool ≠ []
  apart : ∀ name, name ≠ sharedMemoryPoolName → s.memoryPool name ≠ none →
    name ≠ s.currentUser
  separate : ∀ name pool, name ≠ sharedMemoryPoolName → s.memoryPool name = some pool →
    s.getMemoryPool name = .ok pool
  shared : s.currentUser ≠ "" → ∀ pool, s.memoryPool sharedMemoryPoolName = some pool →
    s.getMemoryPool s.currentUser = .ok pool

/-- The call is the forced unregistration of the shared pool's user. -/
def FreesShared (s : ParameterServer) (c : Call) : Prop :=
  s.currentUser ≠ "" ∧ c = .unregister s.currentUser true

/-- From `s` to `t` a call has taken nothing away from other names, and the shared pool
from nobody but its user. -/
structure Respects (s : ParameterServer) (c : Call) (t : ParameterServer) : Prop where
  others : ∀ name, name ≠ Call.checkpointName c → name ≠ sharedMemoryPoolName →
    t.memoryPool name = s.memoryPool name
  user : s.currentUser ≠ "" → s.currentUser ≠ Call.checkpointName c →
    t.currentUser = s.currentUser ∧
      t.memoryPool sharedMemoryPoolName = s.memoryPool sharedMemoryPoolName
  pool : ¬ FreesShared s c → ∀ pool, s.memoryPool sharedMemoryPoolName = some pool → pool ≠ [] →
    ∃ left, t.memoryPool sharedMemoryPoolName = some left ∧ left ≠ []

/-! ## The invariant -/

/-- What makes the routing right, also when the user of the shared pool lets go of it. -/
structure RoutingInv (s : ParameterServer) : Prop where
  sharedKey : s.memoryPool sharedMemoryPoolName ≠ none
  initialised : s.currentUser ≠ "" →
    ∃ pool, s.memoryPool sharedMemoryPoolName = some pool ∧ pool ≠ []
  apart : ∀ name, name ≠ sharedMemoryPoolName → s.memoryPool name ≠ none →
    name ≠ s.currentUser
  unnamed : s.memoryPool "" = none

variable {backend : Backend} {s t : ParameterServer} {name : String}

theorem sharedMemoryPoolName_ne : sharedMemoryPoolName ≠ "" := by decide

theorem RoutingInv.routes (h : RoutingInv s) : Routes s where
  sharedKey := h.sharedKey
  initialised := h.initialised
  apart := h.apart
  separate := by
    intro name pool hshared hpool
    exact getMemoryPool_own (h.apart name hshared (by simp [hpool])) hpool
  shared := by
    intro huser pool hpool
    obtain ⟨pool', hpool', hne⟩ := h.initialised huser
    obtain rfl : pool = pool' := Option.some.inj (hpool.symm.trans hpool')
    obtain ⟨first, rest, rfl⟩ := List.exists_cons_of_ne_nil hne
    simp [getMemoryPool, hpool]

theorem RoutingInv.release (h : RoutingInv s) : RoutingInv { s with currentUser := "" } where
  sharedKey := h.sharedKey
  initialised := fun huser => absurd rfl huser
  apart := by
    rintro name _ hown rfl
    exact hown h.unnamed
  unnamed := h.unnamed

/-- The invariant is the routing now and the routing without a user of the shared pool. -/
theorem routingInv_iff : RoutingInv s ↔ Routes s ∧ Routes { s with currentUser := "" } := by
  constructor
  · exact fun h => ⟨h.routes, h.release.routes⟩
  · rintro ⟨hnow, hlater⟩
    refine ⟨hnow.sharedKey, hnow.initialised, hnow.apart, ?_⟩
    by_contra hown
    exact hlater.apart "" sharedMemoryPoolName_ne.symm hown rfl

/-! ## Unregistering -/

/-- The tensors of the name's pool are not in a P2P store, or can be taken out of it. -/
def Takeable (backend : Backend) (s : ParameterServer) (name : String) : Prop :=
  s.p2pStore = none ∨ s.memoryPool name = some [] ∨ Unpublishes backend s name

/-- Unregistering the name deletes a pool that is not found through the user. -/
def DeletesKey (backend : Backend) (s : ParameterServer) (name : String) : Prop :=
  name ≠ s.currentUser ∧ s.memoryPool name ≠ none ∧ Takeable backend s name ∧
    unpinAll backend ((s.memoryPool name).getD []) = none

/-- What unregistering a name has done to the pools and the user. -/
inductive Unregistered (backend : Backend) (s : ParameterServer) (name : String) (force : Bool)
    (t : ParameterServer) : Prop where
  | kept (hkept : ¬ DeletesKey backend s name)
      (huser : name = s.currentUser → force = true ∧ ¬ (s.p2pStore = none ∨
        Unpublishes backend s name))
      (hpools : t.memoryPool = s.memoryPool) (hcurrent : t.currentUser = s.currentUser)
  | released (hname : name = s.currentUser) (hforce : force = false)
      (hpools : t.memoryPool = s.memoryPool) (hcurrent : t.currentUser = "")
  | freed (hname : name = s.currentUser) (hforce : force = true)
      (htaken : s.p2pStore = none ∨ Unpublishes backend s name)
      (hpools : t.memoryPool = Function.update s.memoryPool sharedMemoryPoolName (some []))
      (hcurrent : t.currentUser = "")
  | deleted (hdeletes : DeletesKey backend s name)
      (hpools : t.memoryPool = Function.update s.memoryPool name none)
      (hcurrent : t.currentUser = s.currentUser)

theorem dropCheckpoint_user (hshared : s.memoryPool sharedMemoryPoolName ≠ none) :
    s.dropCheckpoint backend s.currentUser = .returned
      { s with
        currentUser := ""
        memoryPool := Function.update s.memoryPool sharedMemoryPoolName (some []) } := by
  obtain ⟨pool, hpool⟩ := Option.ne_none_iff_exists'.mp hshared
  simp [dropCheckpoint, hpool]

theorem dropCheckpoint_key (hname : name ≠ s.currentUser) :
    (s.dropCheckpoint backend name).state =
      if unpinAll backend ((s.memoryPool name).getD []) = none then
        { s with memoryPool := Function.update s.memoryPool name none }
      else s := by
  unfold dropCheckpoint
  rw [if_neg hname]
  cases unpinAll backend ((s.memoryPool name).getD []) <;> rfl

/-- `unregister_checkpoint`, branch by branch. -/
theorem unregisterCheckpoint_unregistered (hshared : s.memoryPool sharedMemoryPoolName ≠ none)
    (force : Bool) :
    Unregistered backend s name force (s.unregisterCheckpoint backend name force).state := by
  unfold unregisterCheckpoint
  split
  · next hunknown =>
      exact .kept (fun h => h.2.1 hunknown.1) (fun h => absurd h hunknown.2) rfl rfl
  · next hknown =>
      split
      · next hrelease => exact .released hrelease.1 hrelease.2 rfl rfl
      · next hdrop =>
          have hown : name ≠ s.currentUser → s.memoryPool name ≠ none :=
            fun hname hnone => hknown ⟨hnone, hname⟩
          have hforce : name = s.currentUser → force = true := fun hname => by
            simpa [hname] using hdrop
          -- what follows once the tensors are out of the store
          have hrest : ∀ s' : ParameterServer, s'.memoryPool = s.memoryPool →
              s'.currentUser = s.currentUser →
              (name = s.currentUser → s.p2pStore = none ∨ Unpublishes backend s name) →
              Takeable backend s name ∨ name = s.currentUser →
              Unregistered backend s name force (s'.dropCheckpoint backend name).state := by
            intro s' hpools hcurrent huser htakeable
            by_cases hname : name = s.currentUser
            · have hdrop := @dropCheckpoint_user backend s' (by rwa [hpools])
              rw [hcurrent, ← hname] at hdrop
              rw [hdrop]
              exact .freed hname (hforce hname) (huser hname) (by simp [Outcome.state, hpools]) rfl
            · rw [dropCheckpoint_key (by rw [hcurrent]; exact hname), hpools]
              have htakeable := htakeable.resolve_right hname
              split
              · next hunpinned =>
                  exact .deleted ⟨hname, hown hname, htakeable, hunpinned⟩ rfl hcurrent
              · next hpinned =>
                  exact .kept (fun h => hpinned h.2.2.2) (fun h => absurd h hname) hpools hcurrent
          split
          · next hstore =>
              rcases unregisterParameters_cases backend s name with
                ⟨error, hparams, hnot⟩ | ⟨hparams, hempty, hnot⟩ | ⟨store, hparams, hpub, -⟩
              · rw [hparams]
                refine .kept ?_ ?_ rfl rfl
                · rintro ⟨hname, -, hnone | hempty | hpub, -⟩
                  · simp [hnone] at hstore
                  · have hnil := @unregisterParameters_nil backend s name hstore
                      (getMemoryPool_own hname hempty)
                    rw [hnil] at hparams
                    cases hparams
                  · exact hnot hpub
                · intro hname
                  refine ⟨hforce hname, ?_⟩
                  rintro (hnone | hpub)
                  · simp [hnone] at hstore
                  · exact hnot hpub
              · obtain ⟨hname, hpool⟩ := getMemoryPool_nil hempty
                rw [hparams]
                exact hrest s rfl rfl (fun h => absurd h hname) (.inl (.inr (.inl hpool)))
              · rw [hparams]
                exact hrest _ rfl rfl (fun _ => .inr hpub) (.inl (.inr (.inr hpub)))
          · next hstore =>
              have hnone : s.p2pStore = none := by simpa using hstore
              exact hrest s rfl rfl (fun _ => .inl hnone) (.inl (.inl hnone))

/-! ## The `except` block -/

/-- The clean-up of a registration deletes the name's own pool. -/
def RollsBackKey (backend : Backend) (s : ParameterServer) (request : Request) : Prop :=
  let name := request.checkpointName
  name ≠ s.currentUser ∧ s.memoryPool name ≠ none ∧
    (if request.useSharedMemoryPool then Takeable backend s name
      else s.p2pStore = none ∨ s.memoryPool name = some []) ∧
    unpinAll backend ((s.memoryPool name).getD []) = none

/-- What the clean-up has done to the pools and the user. -/
inductive RolledBack (backend : Backend) (s : ParameterServer) (request : Request)
    (t : ParameterServer) : Prop where
  | kept (hkept : ¬ RollsBackKey backend s request)
      (huser : request.checkpointName = s.currentUser →
        ¬ Unpublishes backend s request.checkpointName)
      (hpools : t.memoryPool = s.memoryPool) (hcurrent : t.currentUser = s.currentUser)
  | released (hname : request.checkpointName = s.currentUser)
      (htaken : request.useSharedMemoryPool = true ∨ s.p2pStore = none ∨
        Unpublishes backend s request.checkpointName)
      (hpools : t.memoryPool = s.memoryPool) (hcurrent : t.currentUser = "")
  | deleted (hdeletes : RollsBackKey backend s request)
      (hpools : t.memoryPool = Function.update s.memoryPool request.checkpointName none)
      (hcurrent : t.currentUser = s.currentUser)

/-- The clean-up, where it begins with `unregister_checkpoint`. -/
theorem Unregistered.rolledBack {request : Request}
    (h : Unregistered backend s request.checkpointName false t)
    (hkey : RollsBackKey backend s request ↔ DeletesKey backend s request.checkpointName)
    (htaken : request.useSharedMemoryPool = true ∨ s.p2pStore = none ∨
      request.checkpointName ≠ s.currentUser) :
    RolledBack backend s request t := by
  cases h with
  | kept hkept huser hpools hcurrent =>
      refine .kept (fun h => hkept (hkey.mp h)) (fun hname => ?_) hpools hcurrent
      exact absurd (huser hname).1 Bool.false_ne_true
  | released hname _ hpools hcurrent =>
      refine .released hname ?_ hpools hcurrent
      rcases htaken with hshared | hnone | hne
      · exact .inl hshared
      · exact .inr (.inl hnone)
      · exact absurd hname hne
  | freed _ hforce => exact absurd hforce Bool.false_ne_true
  | deleted hdeletes hpools hcurrent => exact .deleted (hkey.mpr hdeletes) hpools hcurrent

/-- The clean-up, where the tensors have been taken out before: the second attempt fails. -/
theorem Unregistered.rolledBack_again {request : Request} {store' : P2PStore}
    (h : Unregistered backend { s with p2pStore := some store' } request.checkpointName false t)
    (hshared : request.useSharedMemoryPool = false) (hstore : s.p2pStore.isSome)
    (hpub : Unpublishes backend s request.checkpointName)
    (hagain : ¬ Unpublishes backend { s with p2pStore := some store' } request.checkpointName) :
    RolledBack backend s request t := by
  have hne : s.memoryPool request.checkpointName = some [] →
      request.checkpointName = s.currentUser := by
    intro hown
    by_contra hname
    exact not_unpublishes_of_nil (getMemoryPool_own hname hown) hpub
  cases h with
  | kept hkept huser hpools hcurrent =>
      refine .kept ?_ (fun hname => ?_) hpools hcurrent
      · rintro ⟨hname, -, htakeable, -⟩
        rw [hshared, if_neg Bool.false_ne_true] at htakeable
        rcases htakeable with hnone | hempty
        · simp [hnone] at hstore
        · exact hname (hne hempty)
      · exact absurd (huser hname).1 Bool.false_ne_true
  | released hname _ hpools hcurrent => exact .released hname (.inr (.inr hpub)) hpools hcurrent
  | freed _ hforce => exact absurd hforce Bool.false_ne_true
  | deleted hdeletes =>
      obtain ⟨hname, -, hnone | hempty | hpub', -⟩ := hdeletes
      · cases hnone
      · exact absurd (hne hempty) hname
      · exact absurd hpub' hagain

/-- The clean-up, where the attempt to take the tensors out raises. -/
theorem rolledBack_raised {request : Request} {error : PyError}
    (hshared : request.useSharedMemoryPool = false) (hstore : s.p2pStore.isSome)
    (hparams : s.unregisterParametersFromP2pStore backend request.checkpointName = .error error)
    (hnot : ¬ Unpublishes backend s request.checkpointName) :
    RolledBack backend s request s := by
  refine .kept ?_ (fun _ => hnot) rfl rfl
  rintro ⟨hname, -, htakeable, -⟩
  rw [hshared, if_neg Bool.false_ne_true] at htakeable
  rcases htakeable with hnone | hempty
  · simp [hnone] at hstore
  · have hnil := @unregisterParameters_nil backend s _ hstore (getMemoryPool_own hname hempty)
    rw [hnil] at hparams
    cases hparams

/-- The `except` block, branch by branch. -/
theorem rollback_rolledBack (hpool : s.memoryPool sharedMemoryPoolName ≠ none) (request : Request)
    (error : PyError) :
    RolledBack backend s request (s.rollback backend request error).state := by
  have hunregistered := @unregisterCheckpoint_unregistered backend s request.checkpointName hpool
    false
  rw [rollback_state]
  cases hshared : request.useSharedMemoryPool with
  | true =>
      rw [Bool.not_true, Bool.and_false, if_neg Bool.false_ne_true]
      exact hunregistered.rolledBack (by simp [RollsBackKey, DeletesKey, hshared]) (.inl hshared)
  | false =>
      rw [Bool.not_false, Bool.and_true]
      cases hstore : s.p2pStore with
      | none =>
          rw [Option.isSome_none, if_neg Bool.false_ne_true]
          refine hunregistered.rolledBack ?_ (.inr (.inl hstore))
          simp [RollsBackKey, DeletesKey, Takeable, hshared, hstore]
      | some store =>
          rw [Option.isSome_some, if_pos rfl]
          rcases unregisterParameters_cases backend s request.checkpointName with
            ⟨error, hparams, hnot⟩ | ⟨hparams, hempty, -⟩ |
              ⟨store', hparams, hpub, -, pool, hget, hgone⟩
          · have hback := rolledBack_raised hshared (by simp [hstore]) hparams hnot
            rwa [hparams]
          · obtain ⟨hname, hown⟩ := getMemoryPool_nil hempty
            rw [hparams]
            refine hunregistered.rolledBack ?_ (.inr (.inr hname))
            simp [RollsBackKey, DeletesKey, Takeable, hshared, hown]
          · rw [hparams]
            have hsecond := @unregisterCheckpoint_unregistered backend
              { s with p2pStore := some store' } request.checkpointName hpool false
            exact hsecond.rolledBack_again hshared (by simp [hstore]) hpub
              (not_unpublishes_again hget hgone)

/-! ## The P2P part of the `try` block -/

/-- The addresses of a pool's buffers. -/
def addresses (pool : List MemoryBuffer) : List Nat := pool.map (·.buffer.ptr)

theorem namedTensors_addresses (key : String) (pool : List MemoryBuffer) :
    (namedTensors key pool).map (·.2.ptr) = addresses pool := by
  rw [namedTensors_ptrs, List.map_map]
  rfl

/-- Publishing the pool of the name raises. -/
def PublishRaises (backend : Backend) (s : ParameterServer) (name : String) : Prop :=
  s.p2pStore.isSome ∧ ∀ pool, s.getMemoryPool name = .ok pool →
    pool ≠ [] ∧ backend.registers (addresses pool) = false

/-- The names are in the store before the engine is asked. -/
theorem registerNamedTensors_cases (store : P2PStore) (key : String) (pool : List MemoryBuffer) :
    (backend.registers (addresses pool) = true ∧
        ∃ store', store.registerNamedTensors backend (namedTensors key pool) = .returned store') ∨
      backend.registers (addresses pool) = false ∧
        ∃ error store',
          store.registerNamedTensors backend (namedTensors key pool) = .raised error store' ∧
            store'.addresses ((namedTensors key pool).map Prod.fst) = .ok (addresses pool) := by
  unfold P2PStore.registerNamedTensors
  simp only [namedTensors_addresses]
  cases hregisters : backend.registers (addresses pool) with
  | true => exact .inl ⟨rfl, _, rfl⟩
  | false =>
      refine .inr ⟨rfl, _, _, rfl, ?_⟩
      rw [← namedTensors_addresses key pool]
      exact P2PStore.addresses_of_named fun entry hentry =>
        updateAll_of_mem (names_nodup key pool) hentry

/-- What a publication has done.  What is left of one that raises can be taken out again
if the engine lets go of it. -/
inductive Published (backend : Backend) (s : ParameterServer) (name : String) (wanted : Bool) :
    Outcome PyError ParameterServer → Prop where
  | returned (t : ParameterServer) (hpools : t.memoryPool = s.memoryPool)
      (hcurrent : t.currentUser = s.currentUser)
      (hreturns : ¬ (wanted = true ∧ PublishRaises backend s name)) :
      Published backend s name wanted (.returned t)
  | raised (error : PyError) (t : ParameterServer) (hpools : t.memoryPool = s.memoryPool)
      (hcurrent : t.currentUser = s.currentUser) (hstore : t.p2pStore.isSome)
      (hwanted : wanted = true) (hraises : PublishRaises backend s name)
      (hleft : ∀ pool, s.getMemoryPool name = .ok pool →
        (Unpublishes backend t name ↔ backend.unregisters (addresses pool) = true)) :
      Published backend s name wanted (.raised error t)

theorem registerParameters_published (hstore : s.p2pStore.isSome) (name : String) :
    Published backend s name true (s.registerParametersToP2pStore backend name) := by
  obtain ⟨store, hstore⟩ := Option.isSome_iff_exists.mp hstore
  unfold registerParametersToP2pStore
  rw [hstore]
  cases hpool : s.getMemoryPool name with
  | error error =>
      exact .raised error s rfl rfl (by simp [hstore]) rfl ⟨by simp [hstore], by simp [hpool]⟩
        (by simp [hpool])
  | ok pool =>
      cases pool with
      | nil =>
          refine .returned s rfl rfl ?_
          rintro ⟨-, -, hraises⟩
          exact (hraises [] hpool).1 rfl
      | cons first rest =>
          have hne : first :: rest ≠ [] := List.cons_ne_nil first rest
          simp only [List.isEmpty_cons, Bool.false_eq_true, if_false]
          rcases
            @registerNamedTensors_cases backend store (s.registerName name) (first :: rest) with
            ⟨htaken, store', hregistered⟩ | ⟨hrefused, error, store', hregistered, haddresses⟩
          · rw [hregistered]
            refine .returned _ rfl rfl ?_
            rintro ⟨-, -, hraises⟩
            rw [(hraises _ hpool).2] at htaken
            cases htaken
          · rw [hregistered]
            refine .raised error _ rfl rfl rfl rfl ⟨by simp [hstore], ?_⟩ ?_
            · intro pool hpool'
              obtain rfl := Except.ok.inj (hpool.symm.trans hpool')
              exact ⟨hne, hrefused⟩
            · intro pool hpool'
              obtain rfl := Except.ok.inj (hpool.symm.trans hpool')
              have hget : getMemoryPool { s with p2pStore := some store' } name =
                .ok (first :: rest) := hpool
              rw [unpublishes_iff (s := { s with p2pStore := some store' }) rfl hget hne]
              constructor
              · rintro ⟨taken, htaken, hreleased⟩
                obtain rfl := Except.ok.inj (haddresses.symm.trans htaken)
                exact hreleased
              · exact fun hreleased => ⟨_, haddresses, hreleased⟩

theorem publish_published (name : String) (wanted : Bool) :
    Published backend s name wanted (s.publish backend name wanted) := by
  unfold publish
  split
  · next hwanted =>
      obtain ⟨hstore, rfl⟩ := Bool.and_eq_true_iff.mp hwanted
      exact registerParameters_published hstore name
  · next hunwanted =>
      refine .returned s rfl rfl ?_
      rintro ⟨hwanted, hstore, -⟩
      simp [hwanted, hstore] at hunwanted

/-! ## Registering -/

/-- The first use of the shared pool is taken back: there is nothing to publish, or the
engine refuses it. -/
def TakesBack (backend : Backend) (s : ParameterServer) (loaded : List MemoryBuffer) : Prop :=
  s.p2pStore.isSome ∧ s.memoryPool sharedMemoryPoolName = some [] ∧
    (loaded = [] ∨ backend.registers (addresses loaded) = false)

/-- A registration under the name of the shared pool's user lets go of it: the engine
refuses to take the shared pool again, and then gives it up. -/
def LetsGo (backend : Backend) (s : ParameterServer) : Prop :=
  s.p2pStore.isSome ∧ ∃ pool, s.memoryPool sharedMemoryPoolName = some pool ∧ pool ≠ [] ∧
    backend.registers (addresses pool) = false ∧ backend.unregisters (addresses pool) = true

/-- What a registration has done to the pools and the user. -/
inductive Registered (backend : Backend) (s : ParameterServer) (request : Request)
    (t : ParameterServer) : Prop where
  | unstored (hfails : FailsUnstored backend s request) (hback : RolledBack backend s request t)
  | shared (pool loaded : List MemoryBuffer) (hshared : request.useSharedMemoryPool = true)
      (hfails : ¬ FailsUnstored backend s request) (hempty : s.currentUser = "")
      (hpool : s.memoryPool sharedMemoryPoolName = some pool)
      (hload : Registry.registerCheckpoint backend.host request.files request.namedTensors pool
        false = .ok loaded)
      (hpools : t.memoryPool = Function.update s.memoryPool sharedMemoryPoolName (some loaded))
      (hcurrent : TakesBack backend s loaded ∧ t.currentUser = "" ∨
        ¬ TakesBack backend s loaded ∧ t.currentUser = request.checkpointName)
  | separate (loaded : List MemoryBuffer) (hseparate : request.useSharedMemoryPool = false)
      (hfails : ¬ FailsUnstored backend s request)
      (hunknown : s.memoryPool request.checkpointName = none)
      (hpools : t.memoryPool =
        Function.update s.memoryPool request.checkpointName (some loaded))
      (hcurrent : (request.checkpointName = s.currentUser ∧ LetsGo backend s) ∧
          t.currentUser = "" ∨
        ¬ (request.checkpointName = s.currentUser ∧ LetsGo backend s) ∧
          t.currentUser = s.currentUser)

theorem getMemoryPool_congr (hpools : t.memoryPool = s.memoryPool)
    (hcurrent : t.currentUser = s.currentUser) (name : String) :
    t.getMemoryPool name = s.getMemoryPool name := by
  simp only [getMemoryPool, hpools, hcurrent]

theorem getMemoryPool_user (hname : name = s.currentUser) {pool : List MemoryBuffer}
    (hne : pool ≠ []) :
    s.getMemoryPool name = .ok pool ↔ s.memoryPool sharedMemoryPoolName = some pool := by
  unfold getMemoryPool
  rw [if_pos hname]
  cases hshared : s.memoryPool sharedMemoryPoolName with
  | none => simp
  | some shared =>
      cases shared with
      | nil => simp [hne.symm]
      | cons first rest => simp

/-- A shared registration stops before it has stored anything, or publishes. -/
theorem tryShared_cases (request : Request) {pool : List MemoryBuffer}
    (hpool : s.memoryPool sharedMemoryPoolName = some pool)
    (hshared : request.useSharedMemoryPool = true) :
    (FailsUnstored backend s request ∧ ∃ error, s.tryShared backend request = .raised error s) ∨
      ¬ FailsUnstored backend s request ∧ s.currentUser = "" ∧
        ∃ loaded, Registry.registerCheckpoint backend.host request.files request.namedTensors pool
            false = .ok loaded ∧
          s.tryShared backend request = publish backend
            { s with
              memoryPool := Function.update s.memoryPool sharedMemoryPoolName (some loaded)
              currentUser := request.checkpointName }
            request.checkpointName pool.isEmpty := by
  by_cases huser : s.currentUser = ""
  · cases hload : Registry.registerCheckpoint backend.host request.files request.namedTensors pool
        false with
    | error error =>
        refine .inl ⟨?_, error, ?_⟩
        · simp [FailsUnstored, hshared, hpool, hload]
        · simp [tryShared, huser, hpool, hload]
    | ok loaded =>
        refine .inr ⟨?_, huser, loaded, rfl, ?_⟩
        · simp [FailsUnstored, hshared, huser, hpool, hload]
        · simp [tryShared, huser, hpool, hload]
  · refine .inl ⟨?_, _, if_pos huser⟩
    simp [FailsUnstored, hshared, huser]

theorem trySeparate_cases (request : Request) (hseparate : request.useSharedMemoryPool = false) :
    (FailsUnstored backend s request ∧ ∃ error, s.trySeparate backend request = .raised error s) ∨
      ¬ FailsUnstored backend s request ∧ s.memoryPool request.checkpointName = none ∧
        ∃ loaded, s.trySeparate backend request = publish backend
          { s with
            memoryPool := Function.update s.memoryPool request.checkpointName (some loaded) }
          request.checkpointName true := by
  by_cases hunknown : s.memoryPool request.checkpointName = none
  · cases hload : Registry.registerCheckpoint backend.host request.files request.namedTensors []
        (request.useInplacePinMemory && backend.supportsInplacePin) with
    | error error =>
        refine .inl ⟨?_, error, ?_⟩
        · simp only [FailsUnstored, hseparate, Bool.false_eq_true, if_false]
          exact .inr ⟨error, hload⟩
        · simp only [trySeparate, hunknown, ne_eq, not_true_eq_false, if_false, hload]
    | ok loaded =>
        refine .inr ⟨?_, hunknown, loaded, ?_⟩
        · simp only [FailsUnstored, hseparate, Bool.false_eq_true, if_false, hload]
          simp [hunknown]
        · simp only [trySeparate, hunknown, ne_eq, not_true_eq_false, if_false, hload]
  · refine .inl ⟨?_, _, if_pos hunknown⟩
    simp [FailsUnstored, hseparate, hunknown]

/-- Publishing the shared pool under the name that now uses it. -/
theorem publishRaises_shared {request : Request} {pool loaded : List MemoryBuffer}
    (hpool : s.memoryPool sharedMemoryPoolName = some pool) :
    (pool.isEmpty = true ∧ PublishRaises backend
        { s with
          memoryPool := Function.update s.memoryPool sharedMemoryPoolName (some loaded)
          currentUser := request.checkpointName } request.checkpointName) ↔
      TakesBack backend s loaded := by
  unfold PublishRaises TakesBack
  cases loaded with
  | nil => simp [getMemoryPool, hpool, and_comm]
  | cons first rest => simp [getMemoryPool, hpool, and_left_comm]

theorem registerCheckpoint_shared (hpool : s.memoryPool sharedMemoryPoolName ≠ none)
    {request : Request} (hshared : request.useSharedMemoryPool = true) :
    Registered backend s request (s.registerCheckpoint backend request).state := by
  obtain ⟨pool, hpool'⟩ := Option.ne_none_iff_exists'.mp hpool
  have htry : s.tryRegister backend request = s.tryShared backend request := if_pos hshared
  rcases @tryShared_cases backend s request pool hpool' hshared with
    ⟨hfails, error, htried⟩ | ⟨hfails, hempty, loaded, hload, htried⟩
  · rw [registerCheckpoint_of_raised (htry.trans htried)]
    exact .unstored hfails (rollback_rolledBack hpool request error)
  · have hpublished := @publish_published backend
      { s with
        memoryPool := Function.update s.memoryPool sharedMemoryPoolName (some loaded)
        currentUser := request.checkpointName } request.checkpointName pool.isEmpty
    have htakes := @publishRaises_shared backend s request pool loaded hpool'
    rw [← htried, ← htry] at hpublished
    cases hresult : s.tryRegister backend request with
    | returned t =>
        rw [registerCheckpoint_of_returned hresult]
        rw [hresult] at hpublished
        cases hpublished with
        | returned _ hpools hcurrent hreturns =>
            exact .shared pool loaded hshared hfails hempty hpool' hload hpools
              (.inr ⟨fun h => hreturns (htakes.mpr h), hcurrent⟩)
    | raised error t =>
        rw [registerCheckpoint_of_raised hresult]
        rw [hresult] at hpublished
        cases hpublished with
        | raised _ _ hpools hcurrent _ hwanted hraises _ =>
            rw [rollback_shared hshared hcurrent]
            exact .shared pool loaded hshared hfails hempty hpool' hload hpools
              (.inl ⟨htakes.mp ⟨hwanted, hraises⟩, rfl⟩)

/-- A separate registration whose publication has raised: under the name of the shared
pool's user, the tensors that can be taken out again are those of the shared pool. -/
theorem letsGo_iff_unpublishes {u : ParameterServer} (hstore : s.p2pStore.isSome)
    (hget : ∀ pool ≠ [], (u.getMemoryPool name = .ok pool ↔
      s.memoryPool sharedMemoryPoolName = some pool))
    (hpool : t.getMemoryPool name = u.getMemoryPool name) (hraises : PublishRaises backend u name)
    (hleft : ∀ pool, u.getMemoryPool name = .ok pool →
      (Unpublishes backend t name ↔ backend.unregisters (addresses pool) = true)) :
    LetsGo backend s ↔ Unpublishes backend t name := by
  constructor
  · rintro ⟨-, pool, hshared, hne, -, hreleased⟩
    exact (hleft pool ((hget pool hne).mpr hshared)).mpr hreleased
  · intro hunpublishes
    have ⟨_, pool, _, htaken, hne, _⟩ := hunpublishes
    rw [hpool] at htaken
    exact ⟨hstore, pool, (hget pool hne).mp htaken, hne, (hraises.2 pool htaken).2,
      (hleft pool htaken).mp hunpublishes⟩

/-- What the name stands for while a pool of its own is published, where it uses the shared
pool. -/
theorem getMemoryPool_stored (hname : name ≠ sharedMemoryPoolName) (huser : name = s.currentUser)
    {loaded pool : List MemoryBuffer} (hne : pool ≠ []) :
    getMemoryPool { s with memoryPool := Function.update s.memoryPool name (some loaded) } name =
      .ok pool ↔ s.memoryPool sharedMemoryPoolName = some pool := by
  have hshared := getMemoryPool_user
    (s := { s with memoryPool := Function.update s.memoryPool name (some loaded) }) huser hne
  rw [hshared]
  simp [hname.symm]

/-- A registration that has stored a pool of its own and raises when it publishes. -/
theorem separate_raised (hpool : s.memoryPool sharedMemoryPoolName ≠ none) {request : Request}
    (hseparate : request.useSharedMemoryPool = false) (hfails : ¬ FailsUnstored backend s request)
    (hunknown : s.memoryPool request.checkpointName = none) {loaded : List MemoryBuffer}
    {error : PyError}
    (hpublished : Published backend
      { s with memoryPool := Function.update s.memoryPool request.checkpointName (some loaded) }
      request.checkpointName true (.raised error t)) :
    Registered backend s request (t.rollback backend request error).state := by
  have hname : request.checkpointName ≠ sharedMemoryPoolName := by
    intro heq
    exact hpool (heq ▸ hunknown)
  cases hpublished with
  | raised _ _ hpools hcurrent hstore _ hraises hleft =>
      have hpool' : t.memoryPool sharedMemoryPoolName ≠ none := by
        rw [hpools]
        simpa [hname.symm] using hpool
      have hlets : request.checkpointName = s.currentUser →
          (LetsGo backend s ↔ Unpublishes backend t request.checkpointName) := fun huser =>
        letsGo_iff_unpublishes hraises.1 (fun _ hne => getMemoryPool_stored hname huser hne)
          (getMemoryPool_congr hpools hcurrent _) hraises hleft
      have hback := @rollback_rolledBack backend t hpool' request error
      cases hback with
      | kept _ huser hpools' hcurrent' =>
          refine .separate loaded hseparate hfails hunknown (hpools'.trans hpools)
            (.inr ⟨?_, hcurrent'.trans hcurrent⟩)
          rintro ⟨hname, hletsGo⟩
          exact huser (hname.trans hcurrent.symm) ((hlets hname).mp hletsGo)
      | released hname htaken hpools' hcurrent' =>
          have hname : request.checkpointName = s.currentUser := hname.trans hcurrent
          refine .separate loaded hseparate hfails hunknown (hpools'.trans hpools)
            (.inl ⟨⟨hname, (hlets hname).mpr ?_⟩, hcurrent'⟩)
          rcases htaken with hshared | hnone | hunpublishes
          · simp [hseparate] at hshared
          · simp [hnone] at hstore
          · exact hunpublishes
      | deleted hdeletes =>
          obtain ⟨hname, -, htakeable, -⟩ := hdeletes
          rw [hseparate, if_neg Bool.false_ne_true, hpools] at htakeable
          rcases htakeable with hnone | hempty
          · simp [hnone] at hstore
          · have hown := getMemoryPool_own (hcurrent ▸ hname) hempty
            exact absurd rfl (hraises.2 [] hown).1

theorem registerCheckpoint_separate (hpool : s.memoryPool sharedMemoryPoolName ≠ none)
    {request : Request} (hseparate : request.useSharedMemoryPool = false) :
    Registered backend s request (s.registerCheckpoint backend request).state := by
  have htry : s.tryRegister backend request = s.trySeparate backend request :=
    if_neg (by simp [hseparate])
  rcases @trySeparate_cases backend s request hseparate with
    ⟨hfails, error, htried⟩ | ⟨hfails, hunknown, loaded, htried⟩
  · rw [registerCheckpoint_of_raised (htry.trans htried)]
    exact .unstored hfails (rollback_rolledBack hpool request error)
  · have hname : request.checkpointName ≠ sharedMemoryPoolName := by
      intro heq
      exact hpool (heq ▸ hunknown)
    have hpublished := @publish_published backend
      { s with
        memoryPool := Function.update s.memoryPool request.checkpointName (some loaded) }
      request.checkpointName true
    rw [← htried, ← htry] at hpublished
    cases hresult : s.tryRegister backend request with
    | returned t =>
        rw [registerCheckpoint_of_returned hresult]
        rw [hresult] at hpublished
        cases hpublished with
        | returned _ hpools hcurrent hreturns =>
            refine .separate loaded hseparate hfails hunknown hpools (.inr ⟨?_, hcurrent⟩)
            rintro ⟨huser, hstore, pool, hpool, hne, hrefused, -⟩
            refine hreturns ⟨rfl, hstore, fun pool' hpool' => ?_⟩
            have hstored := (@getMemoryPool_stored s _ hname huser loaded pool hne).mpr hpool
            obtain rfl := Except.ok.inj (hstored.symm.trans hpool')
            exact ⟨hne, hrefused⟩
    | raised error t =>
        rw [registerCheckpoint_of_raised hresult]
        exact separate_raised hpool hseparate hfails hunknown (hresult ▸ hpublished)

/-- `register_checkpoint`, branch by branch. -/
theorem registerCheckpoint_registered (hpool : s.memoryPool sharedMemoryPoolName ≠ none)
    (request : Request) :
    Registered backend s request (s.registerCheckpoint backend request).state := by
  cases hshared : request.useSharedMemoryPool with
  | true => exact registerCheckpoint_shared hpool hshared
  | false => exact registerCheckpoint_separate hpool hshared

/-! ## The calls that keep the routing -/

/-- Where a checkpoint in the shared pool is to be put. -/
def newAddresses (backend : Backend) (request : Request) : List Nat :=
  (List.range (packedCount backend.host request.files request.namedTensors)).map
    backend.host.allocate

/-- The checkpoint can use the shared pool: it has tensors, and its name no pool of its
own.  Else the first use must fail in the P2P store, or be under the empty name. -/
def SharedFits (backend : Backend) (s : ParameterServer) (request : Request) : Prop :=
  if request.files = [] ∧ request.namedTensors = [] then
    s.memoryPool sharedMemoryPoolName = some [] ∧
      (s.p2pStore.isSome ∨ request.checkpointName = "")
  else
    request.checkpointName = sharedMemoryPoolName ∨
      s.memoryPool request.checkpointName = none ∨
      s.p2pStore.isSome ∧ s.memoryPool sharedMemoryPoolName = some [] ∧
        backend.registers (newAddresses backend request) = false

/-- The call takes none of the branches that mix pools up.  It does not delete the key of
the shared pool, or free the pool when nobody uses it; and a registration that loads
fits the mode it is made in. -/
def Routable (backend : Backend) (s : ParameterServer) : Call → Prop
  | .unregister name force =>
      (name = sharedMemoryPoolName → ¬ DeletesKey backend s name) ∧
        (name = "" → s.currentUser = "" → force = true →
          s.memoryPool sharedMemoryPoolName = some [] ∨
            ¬ (s.p2pStore = none ∨ Unpublishes backend s name))
  | .register request =>
      (FailsUnstored backend s request → request.checkpointName = sharedMemoryPoolName →
        ¬ RollsBackKey backend s request) ∧
      (¬ FailsUnstored backend s request →
        if request.useSharedMemoryPool then SharedFits backend s request
        else request.checkpointName ≠ "" ∧
          (request.checkpointName = s.currentUser → LetsGo backend s))

/-- The pools and the user are as before. -/
theorem RoutingInv.congr (h : RoutingInv s) (hpools : t.memoryPool = s.memoryPool)
    (hcurrent : t.currentUser = s.currentUser) : RoutingInv t where
  sharedKey := hpools ▸ h.sharedKey
  initialised := by rw [hpools, hcurrent]; exact h.initialised
  apart := by rw [hpools, hcurrent]; exact h.apart
  unnamed := hpools ▸ h.unnamed

theorem Respects.refl (s : ParameterServer) (c : Call) : Respects s c s where
  others := fun _ _ _ => rfl
  user := fun _ _ => ⟨rfl, rfl⟩
  pool := fun _ pool hpool hne => ⟨pool, hpool, hne⟩

theorem Respects.congr {s t t' : ParameterServer} {c : Call} (h : Respects s c t)
    (hpools : t'.memoryPool = t.memoryPool) (hcurrent : t'.currentUser = t.currentUser) :
    Respects s c t' where
  others := by rw [hpools]; exact h.others
  user := by rw [hpools, hcurrent]; exact h.user
  pool := by rw [hpools]; exact h.pool

/-- The user of the shared pool lets go of it in a call for its name. -/
theorem RoutingInv.released (h : RoutingInv s) {c : Call}
    (hname : Call.checkpointName c = s.currentUser) (hpools : t.memoryPool = s.memoryPool)
    (hcurrent : t.currentUser = "") : RoutingInv t ∧ Respects s c t := by
  refine ⟨h.release.congr hpools hcurrent, ?_, ?_, ?_⟩
  · exact fun _ _ _ => by rw [hpools]
  · exact fun _ hne => absurd hname.symm hne
  · exact fun _ pool hpool hne => ⟨pool, hpools ▸ hpool, hne⟩

/-- A call deletes the key of its name. -/
theorem RoutingInv.deleted_iff (h : RoutingInv s) {c : Call}
    (hpools : t.memoryPool = Function.update s.memoryPool (Call.checkpointName c) none)
    (hcurrent : t.currentUser = s.currentUser) :
    Call.checkpointName c ≠ sharedMemoryPoolName ↔ RoutingInv t ∧ Respects s c t := by
  constructor
  · intro hshared
    have hkey : t.memoryPool sharedMemoryPoolName = s.memoryPool sharedMemoryPoolName := by
      rw [hpools, Function.update_of_ne hshared.symm]
    refine ⟨⟨?_, ?_, ?_, ?_⟩, ?_, ?_, ?_⟩
    · rw [hkey]
      exact h.sharedKey
    · rw [hkey, hcurrent]
      exact h.initialised
    · intro name hne hown
      rw [hcurrent]
      refine h.apart name hne ?_
      rw [hpools] at hown
      by_cases heq : name = Call.checkpointName c
      · simp [heq] at hown
      · rwa [Function.update_of_ne heq] at hown
    · rw [hpools, Function.update_apply]
      split
      · rfl
      · exact h.unnamed
    · intro name hne _
      rw [hpools, Function.update_of_ne hne]
    · exact fun _ _ => ⟨hcurrent, hkey⟩
    · exact fun _ pool hpool hne => ⟨pool, hkey.trans hpool, hne⟩
  · rintro ⟨hinv, -⟩ hshared
    have hgone : t.memoryPool sharedMemoryPoolName = none := by
      rw [hpools, hshared, Function.update_self]
    exact hinv.sharedKey hgone

theorem RoutingInv.unregister_iff (h : RoutingInv s) {force : Bool}
    (hunregistered : Unregistered backend s name force t) :
    Routable backend s (.unregister name force) ↔
      RoutingInv t ∧ Respects s (.unregister name force) t := by
  cases hunregistered with
  | kept hkept huser hpools hcurrent =>
      refine ⟨fun _ => ⟨h.congr hpools hcurrent, (Respects.refl s _).congr hpools hcurrent⟩,
        fun _ => ⟨fun _ => hkept, ?_⟩⟩
      exact fun hname hempty _ => .inr (huser (hname.trans hempty.symm)).2
  | released hname hforce hpools hcurrent =>
      refine ⟨fun _ => h.released hname hpools hcurrent, fun _ => ⟨?_, ?_⟩⟩
      · exact fun _ hdeletes => hdeletes.1 hname
      · exact fun _ _ hforced => absurd hforced (by simp [hforce])
  | freed hname hforce htaken hpools hcurrent =>
      have hkey : t.memoryPool sharedMemoryPoolName = some [] := by
        rw [hpools, Function.update_self]
      have hother : ∀ other, other ≠ sharedMemoryPoolName →
          t.memoryPool other = s.memoryPool other := fun other hne => by
        rw [hpools, Function.update_of_ne hne]
      constructor
      · rintro ⟨-, hnobody⟩
        refine ⟨⟨by simp [hkey], fun huser => absurd hcurrent huser, ?_, ?_⟩, ?_, ?_, ?_⟩
        · rintro other hne hown rfl
          rw [hother _ hne, hcurrent] at hown
          exact hown h.unnamed
        · rw [hother "" sharedMemoryPoolName_ne.symm]
          exact h.unnamed
        · exact fun other _ hne => hother other hne
        · exact fun _ hne => absurd hname.symm hne
        · intro hfrees pool hpool hne
          by_cases huser : s.currentUser = ""
          · rcases hnobody (hname.trans huser) huser hforce with hempty | hkept
            · exact absurd (Option.some.inj (hpool.symm.trans hempty)) hne
            · exact absurd htaken hkept
          · exact absurd ⟨huser, by rw [hname, hforce]⟩ hfrees
      · rintro ⟨-, hrespects⟩
        refine ⟨fun _ hdeletes => hdeletes.1 hname, fun _ hempty _ => .inl ?_⟩
        -- nobody uses the pool, so it must have been empty
        obtain ⟨pool, hpool⟩ := Option.ne_none_iff_exists'.mp h.sharedKey
        by_contra hne
        obtain ⟨left, hleft, hsome⟩ := hrespects.pool (fun hfrees => hfrees.1 hempty) pool hpool
          (fun heq => hne (heq ▸ hpool))
        exact hsome (Option.some.inj (hleft.symm.trans hkey))
  | deleted hdeletes hpools hcurrent =>
      rw [← h.deleted_iff (c := .unregister name force) hpools hcurrent]
      constructor
      · exact fun hroutable hname => hroutable.1 hname hdeletes
      · intro hname
        refine ⟨fun heq => absurd heq hname, fun heq hempty => ?_⟩
        exact absurd (heq.trans hempty.symm) hdeletes.1

theorem RoutingInv.rolledBack_iff (h : RoutingInv s) {request : Request}
    (hback : RolledBack backend s request t) :
    (request.checkpointName = sharedMemoryPoolName → ¬ RollsBackKey backend s request) ↔
      RoutingInv t ∧ Respects s (.register request) t := by
  cases hback with
  | kept hkept _ hpools hcurrent =>
      exact ⟨fun _ => ⟨h.congr hpools hcurrent, (Respects.refl s _).congr hpools hcurrent⟩,
        fun _ _ => hkept⟩
  | released hname _ hpools hcurrent =>
      exact ⟨fun _ => h.released hname hpools hcurrent, fun _ _ hdeletes => hdeletes.1 hname⟩
  | deleted hdeletes hpools hcurrent =>
      rw [← h.deleted_iff (c := .register request) hpools hcurrent]
      exact ⟨fun hkept hname => hkept hname hdeletes, fun hname heq => absurd heq hname⟩

/-- New buffers lie where the host puts them. -/
theorem addresses_new {request : Request} {loaded : List MemoryBuffer}
    (h : Registry.registerCheckpoint backend.host request.files request.namedTensors [] false =
      .ok loaded) :
    addresses loaded = newAddresses backend request := by
  obtain ⟨hlength, -, hplaces⟩ := registerCheckpoint_copied h
  have hptrs := @ptrs_eq_allocate backend.host loaded hplaces
  rw [List.map_map, hlength] at hptrs
  exact hptrs

/-- The filled shared pool is the name's: the routing holds when the name has no pool of
its own. -/
theorem RoutingInv.filled_iff (h : RoutingInv s) {loaded : List MemoryBuffer}
    (hkey : t.memoryPool sharedMemoryPoolName = some loaded) (hne : loaded ≠ [])
    (hother : ∀ other, other ≠ sharedMemoryPoolName → t.memoryPool other = s.memoryPool other)
    (hcurrent : t.currentUser = name) :
    RoutingInv t ↔ name = sharedMemoryPoolName ∨ s.memoryPool name = none := by
  constructor
  · intro hinv
    by_cases hname : name = sharedMemoryPoolName
    · exact .inl hname
    · refine .inr ?_
      by_contra hown
      exact hinv.apart name hname (by rwa [hother name hname]) hcurrent.symm
  · intro hfree
    refine ⟨by simp [hkey], fun _ => ⟨loaded, hkey, hne⟩, ?_, ?_⟩
    · intro other hshared hown heq
      rw [hcurrent] at heq
      subst heq
      rw [hother _ hshared] at hown
      exact hfree.elim hshared hown
    · rw [hother "" sharedMemoryPoolName_ne.symm]
      exact h.unnamed

/-- A registration has stored what it loaded as the shared pool, which nobody uses. -/
structure SharedStored (backend : Backend) (s t : ParameterServer) (request : Request)
    (pool loaded : List MemoryBuffer) : Prop where
  unused : s.currentUser = ""
  before : s.memoryPool sharedMemoryPoolName = some pool
  load : Registry.registerCheckpoint backend.host request.files request.namedTensors pool
    false = .ok loaded
  after : t.memoryPool = Function.update s.memoryPool sharedMemoryPoolName (some loaded)

section SharedStored

variable {request : Request} {pool loaded : List MemoryBuffer}

theorem SharedStored.nothing (hs : SharedStored backend s t request pool loaded) :
    loaded = [] ↔ request.files = [] ∧ request.namedTensors = [] := by
  have hload := hs.load
  refine ⟨(registerCheckpoint_copied hload).2.1, ?_⟩
  rintro ⟨hfiles, htensors⟩
  rw [hfiles, htensors] at hload
  exact (Except.ok.inj hload).symm

theorem SharedStored.key (hs : SharedStored backend s t request pool loaded) :
    t.memoryPool sharedMemoryPoolName = some loaded := by
  rw [hs.after, Function.update_self]

theorem SharedStored.other (hs : SharedStored backend s t request pool loaded) (name : String)
    (hne : name ≠ sharedMemoryPoolName) : t.memoryPool name = s.memoryPool name := by
  rw [hs.after, Function.update_of_ne hne]

theorem SharedStored.respects (hs : SharedStored backend s t request pool loaded)
    (hkept : pool ≠ [] → loaded ≠ []) : Respects s (.register request) t := by
  refine ⟨fun name _ hne => hs.other name hne, fun huser => absurd hs.unused huser, ?_⟩
  intro _ pool' hpool' hne
  obtain rfl := Option.some.inj (hs.before.symm.trans hpool')
  exact ⟨loaded, hs.key, hkept hne⟩

/-- The first use has failed in the P2P store and is taken back. -/
theorem SharedStored.takenBack_iff (hs : SharedStored backend s t request pool loaded)
    (h : RoutingInv s) (htakes : TakesBack backend s loaded) (hcurrent : t.currentUser = "") :
    SharedFits backend s request ↔ RoutingInv t ∧ Respects s (.register request) t := by
  obtain ⟨hstore, hfirst, hrefused⟩ := htakes
  obtain rfl := Option.some.inj (hs.before.symm.trans hfirst)
  have hunnamed : t.memoryPool "" = none := by
    rw [hs.other "" sharedMemoryPoolName_ne.symm]
    exact h.unnamed
  constructor
  · intro _
    refine ⟨⟨by simp [hs.key], fun huser => absurd hcurrent huser, ?_, hunnamed⟩,
      hs.respects (fun hne => absurd rfl hne)⟩
    rintro name hne hown rfl
    rw [hcurrent] at hown
    exact hown hunnamed
  · intro _
    unfold SharedFits
    split
    · exact ⟨hfirst, .inl hstore⟩
    · next hsome =>
        have hloaded := hrefused.resolve_left fun hnil => hsome (hs.nothing.mp hnil)
        rw [addresses_new hs.load] at hloaded
        exact .inr (.inr ⟨hstore, hfirst, hloaded⟩)

/-- Nothing has been loaded, which fits the first use under the empty name only. -/
theorem SharedStored.empty_iff (hs : SharedStored backend s t request pool loaded)
    (h : RoutingInv s) (hnil : loaded = []) (htakes : ¬ TakesBack backend s loaded)
    (hcurrent : t.currentUser = request.checkpointName) :
    (s.memoryPool sharedMemoryPoolName = some [] ∧
        (s.p2pStore.isSome ∨ request.checkpointName = "")) ↔
      RoutingInv t ∧ Respects s (.register request) t := by
  constructor
  · rintro ⟨hfirst, hstore | hname⟩
    · exact absurd ⟨hstore, hfirst, .inl hnil⟩ htakes
    · have hsame : t.memoryPool = s.memoryPool := by
        rw [hs.after, hnil, ← hfirst]
        exact Function.update_eq_self _ _
      have huser : t.currentUser = s.currentUser := by rw [hcurrent, hname, hs.unused]
      exact ⟨h.congr hsame huser, (Respects.refl s _).congr hsame huser⟩
  · rintro ⟨hinv, hrespects⟩
    have hfirst : pool = [] := by
      by_contra hne
      obtain ⟨left, hleft, hsome⟩ :=
        hrespects.pool (fun hfrees => hfrees.1 hs.unused) pool hs.before hne
      exact hsome (Option.some.inj (hleft.symm.trans (hnil ▸ hs.key)))
    refine ⟨hfirst ▸ hs.before, .inr ?_⟩
    by_contra hname
    obtain ⟨left, hleft, hsome⟩ := hinv.initialised (hcurrent ▸ hname)
    exact hsome (Option.some.inj (hleft.symm.trans (hnil ▸ hs.key)))

/-- A registration has filled the shared pool. -/
theorem SharedStored.fits_iff (hs : SharedStored backend s t request pool loaded)
    (h : RoutingInv s)
    (hcurrent : TakesBack backend s loaded ∧ t.currentUser = "" ∨
      ¬ TakesBack backend s loaded ∧ t.currentUser = request.checkpointName) :
    SharedFits backend s request ↔ RoutingInv t ∧ Respects s (.register request) t := by
  rcases hcurrent with ⟨htakes, hcurrent⟩ | ⟨htakes, hcurrent⟩
  · exact hs.takenBack_iff h htakes hcurrent
  · unfold SharedFits
    split
    · next hnone => exact hs.empty_iff h (hs.nothing.mpr hnone) htakes hcurrent
    · next hsome =>
        have hne : loaded ≠ [] := fun hnil => hsome (hs.nothing.mp hnil)
        have hfilled := h.filled_iff hs.key hne hs.other hcurrent
        constructor
        · intro hfits
          refine ⟨hfilled.mpr ?_, hs.respects fun _ => hne⟩
          rcases hfits with hname | hunknown | ⟨hstore, hfirst, hrefused⟩
          · exact .inl hname
          · exact .inr hunknown
          · refine absurd ⟨hstore, hfirst, .inr ?_⟩ htakes
            obtain rfl := Option.some.inj (hs.before.symm.trans hfirst)
            rwa [addresses_new hs.load]
        · rintro ⟨hinv, -⟩
          exact (hfilled.mp hinv).imp_right .inl

end SharedStored

/-- A registration has stored a pool of its own under a name that is not in use. -/
theorem RoutingInv.separate_kept (h : RoutingInv s) {request : Request}
    {loaded : List MemoryBuffer} (hunknown : s.memoryPool request.checkpointName = none)
    (hpools : t.memoryPool = Function.update s.memoryPool request.checkpointName (some loaded))
    (hnamed : request.checkpointName ≠ "")
    (huser : t.currentUser = s.currentUser ∧ request.checkpointName ≠ s.currentUser ∨
      t.currentUser = "" ∧ request.checkpointName = s.currentUser) :
    RoutingInv t ∧ Respects s (.register request) t := by
  have hname : sharedMemoryPoolName ≠ request.checkpointName := by
    intro heq
    exact h.sharedKey (heq ▸ hunknown)
  have hother : ∀ name, name ≠ request.checkpointName → t.memoryPool name = s.memoryPool name :=
    fun name hne => by rw [hpools, Function.update_of_ne hne]
  refine ⟨⟨?_, ?_, ?_, ?_⟩, ?_, ?_, ?_⟩
  · rw [hother _ hname]
    exact h.sharedKey
  · intro hused
    rw [hother _ hname]
    rcases huser with ⟨hsame, -⟩ | ⟨hgone, -⟩
    · exact h.initialised (hsame ▸ hused)
    · exact absurd hgone hused
  · intro name hshared hpool
    by_cases heq : name = request.checkpointName
    · subst heq
      rcases huser with ⟨hsame, hne⟩ | ⟨hgone, -⟩
      · rwa [hsame]
      · rwa [hgone]
    · rw [hother name heq] at hpool
      rcases huser with ⟨hsame, -⟩ | ⟨hgone, -⟩
      · rw [hsame]
        exact h.apart name hshared hpool
      · rw [hgone]
        rintro rfl
        exact hpool h.unnamed
  · rw [hother "" hnamed.symm]
    exact h.unnamed
  · exact fun name hne _ => hother name hne
  · intro hused hne
    rcases huser with ⟨hsame, -⟩ | ⟨-, heq⟩
    · exact ⟨hsame, hother _ hname⟩
    · exact absurd heq.symm hne
  · exact fun _ pool hpool hne => ⟨pool, (hother _ hname).trans hpool, hne⟩

/-- A registration has stored a pool of its own. -/
theorem RoutingInv.separate_iff (h : RoutingInv s) {request : Request}
    {loaded : List MemoryBuffer} (hunknown : s.memoryPool request.checkpointName = none)
    (hpools : t.memoryPool = Function.update s.memoryPool request.checkpointName (some loaded))
    (hcurrent : (request.checkpointName = s.currentUser ∧ LetsGo backend s) ∧
        t.currentUser = "" ∨
      ¬ (request.checkpointName = s.currentUser ∧ LetsGo backend s) ∧
        t.currentUser = s.currentUser) :
    (request.checkpointName ≠ "" ∧ (request.checkpointName = s.currentUser → LetsGo backend s)) ↔
      RoutingInv t ∧ Respects s (.register request) t := by
  have hown : t.memoryPool request.checkpointName = some loaded := by
    rw [hpools, Function.update_self]
  constructor
  · rintro ⟨hnamed, hletsGo⟩
    refine h.separate_kept hunknown hpools hnamed ?_
    -- the user is not the name that now has a pool
    rcases hcurrent with ⟨⟨hsame, -⟩, hgone⟩ | ⟨hkept, hsame⟩
    · exact .inr ⟨hgone, hsame⟩
    · exact .inl ⟨hsame, fun heq => hkept ⟨heq, hletsGo heq⟩⟩
  · rintro ⟨hinv, -⟩
    refine ⟨?_, fun heq => ?_⟩
    · intro hempty
      have := hinv.unnamed
      rw [← hempty, hown] at this
      cases this
    · by_contra hkept
      rcases hcurrent with ⟨⟨-, hletsGo⟩, -⟩ | ⟨-, hsame⟩
      · exact hkept hletsGo
      · have hshared : request.checkpointName ≠ sharedMemoryPoolName :=
          fun hname => h.sharedKey (hname ▸ hunknown)
        refine hinv.apart request.checkpointName hshared (by simp [hown]) ?_
        rw [hsame, heq]

/-- A call keeps the pools apart, now and when the user of the shared pool lets go of it,
exactly if it takes none of the branches that mix them up. -/
theorem RoutingInv.call_iff (h : RoutingInv s) (c : Call) :
    Routable backend s c ↔
      RoutingInv (s.call backend c).state ∧ Respects s c (s.call backend c).state := by
  cases c with
  | unregister name force =>
      exact h.unregister_iff (unregisterCheckpoint_unregistered h.sharedKey force)
  | register request =>
      have hregistered := @registerCheckpoint_registered backend s h.sharedKey request
      generalize ht : (s.registerCheckpoint backend request).state = t at hregistered
      show _ ↔ RoutingInv (s.registerCheckpoint backend request).state ∧ Respects s _ _
      rw [show (s.call backend (.register request)).state = t from ht, ht]
      unfold Routable
      cases hregistered with
      | unstored hfails hback =>
          rw [← h.rolledBack_iff hback]
          simp [hfails]
      | shared pool loaded hshared hfails hempty hpool hload hpools hcurrent =>
          rw [← SharedStored.fits_iff ⟨hempty, hpool, hload, hpools⟩ h hcurrent]
          simp [hfails, hshared]
      | separate loaded hseparate hfails hunknown hpools hcurrent =>
          rw [← h.separate_iff hunknown hpools hcurrent]
          simp [hfails, hseparate]

/-! ## Runs -/

theorem routingInv_fresh (p2p : Bool) : RoutingInv (fresh p2p) where
  sharedKey := by simp [fresh]
  initialised := fun huser => absurd rfl huser
  apart := by
    intro name hne hown
    simp [fresh, hne] at hown
  unnamed := by simp [fresh, sharedMemoryPoolName_ne.symm]

/-- The call is routable where it is made. -/
def KeepsRouting (s : ParameterServer) (action : Backend × Call) : Prop :=
  Routable action.1 s action.2

/-- In a run of calls that keep to the condition, whatever they raise and whatever answers
from outside: every name is routed to its only registration in every state, and no such
call takes anything away from another name or the shared pool from its user. -/
theorem routes_of_routable {p2p : Bool} {s : ParameterServer}
    (h : (machine p2p).ReachableBy KeepsRouting s) :
    Routes s ∧ ∀ backend c, Routable backend s c → Respects s c (s.call backend c).state := by
  have hinv : RoutingInv s := by
    refine h.invariant (routingInv_fresh p2p) ?_
    rintro s ⟨backend, c⟩ t hinv hroutable hstep
    obtain rfl := Option.some.inj hstep
    exact ((hinv.call_iff c).mp hroutable).1
  exact ⟨hinv.routes, fun backend c hroutable => ((hinv.call_iff c).mp hroutable).2⟩

/-- The shared pool is used, on a server without a P2P store. -/
def poolInUse : ParameterServer :=
  ((fresh false).call plainBackend
    (.register (inSharedPool "a" [⟨"weight", .float32, [1]⟩]))).state

/-- Another checkpoint has a pool of its own. -/
def bothPools : ParameterServer := (poolInUse.call plainBackend (.register (oneTensor "b"))).state

theorem routes_of_routable_bothPools : Routes bothPools := by
  have hfirst : KeepsRouting (fresh false)
      (plainBackend, .register (inSharedPool "a" [⟨"weight", .float32, [1]⟩])) :=
    ⟨fun _ hname => absurd hname (by decide), fun _ => .inr (.inl rfl)⟩
  have hsecond : KeepsRouting poolInUse (plainBackend, .register (oneTensor "b")) :=
    ⟨fun _ hname => absurd hname (by decide),
      fun _ => ⟨by decide, fun hname => absurd hname (by decide)⟩⟩
  have hreach : (machine false).ReachableBy KeepsRouting bothPools :=
    (Machine.ReachableBy.init.step hfirst rfl).step hsecond rfl
  exact (routes_of_routable hreach).1

/-- Every part of the routing can be lost: the key of the shared pool is unregistered, a
checkpoint without tensors uses the shared pool, a name is registered in both modes, and
the shared pool is freed under the empty name. -/
theorem routing_broken :
    (¬ ∀ s, (machine false).Reachable s → s.memoryPool sharedMemoryPoolName ≠ none) ∧
      (¬ ∀ s, (machine false).Reachable s → s.currentUser ≠ "" →
        ∃ pool, s.memoryPool sharedMemoryPoolName = some pool ∧ pool ≠ []) ∧
      (¬ ∀ s, (machine false).Reachable s → ∀ name, name ≠ sharedMemoryPoolName →
        s.memoryPool name ≠ none → name ≠ s.currentUser) ∧
      ¬ ∀ s, (machine false).Reachable s → ∀ backend c,
        Respects s c (s.call backend c).state := by
  refine ⟨fun h => ?_, fun h => ?_, fun h => ?_, fun h => ?_⟩
  · obtain ⟨s, hs, hgone⟩ := @Machine.Reachable.of_run _ _ (machine false)
      (fun s => s.memoryPool sharedMemoryPoolName = none) inferInstance
      [(plainBackend, .unregister sharedMemoryPoolName false)] (by decide +kernel)
    exact h s hs hgone
  · obtain ⟨s, hs, huser, hpool⟩ := @Machine.Reachable.of_run _ _ (machine false)
      (fun s => s.currentUser ≠ "" ∧ s.memoryPool sharedMemoryPoolName = some []) inferInstance
      [(plainBackend, .register (inSharedPool "a" []))] (by decide +kernel)
    obtain ⟨pool, hpool', hne⟩ := h s hs huser
    exact hne (Option.some.inj (hpool'.symm.trans hpool))
  · obtain ⟨s, hs, huser, hown⟩ := @Machine.Reachable.of_run _ _ (machine false)
      (fun s => "a" = s.currentUser ∧ s.memoryPool "a" ≠ none) inferInstance
      [(plainBackend, .register (oneTensor "a")),
        (plainBackend, .register (inSharedPool "a" [⟨"weight", .float32, [1]⟩]))]
      (by decide +kernel)
    exact h s hs "a" (by decide) hown huser
  · obtain ⟨s, hs, huser, hpool, hfreed⟩ := @Machine.Reachable.of_run _ _ (machine false)
      (fun s => s.currentUser = "" ∧ (s.memoryPool sharedMemoryPoolName).getD [] ≠ [] ∧
        (s.call plainBackend (.unregister "" true)).state.memoryPool sharedMemoryPoolName =
          some []) inferInstance
      [(plainBackend, .register (inSharedPool "a" [⟨"weight", .float32, [1]⟩])),
        (plainBackend, .unregister "a" false)] (by decide +kernel)
    obtain ⟨pool, hpool', hne⟩ : ∃ pool, s.memoryPool sharedMemoryPoolName = some pool ∧
        pool ≠ [] := by
      cases hshared : s.memoryPool sharedMemoryPoolName with
      | none => simp [hshared] at hpool
      | some pool => exact ⟨pool, rfl, by simpa [hshared] using hpool⟩
    obtain ⟨left, hleft, hsome⟩ := (h s hs plainBackend (.unregister "" true)).pool
      (fun hfrees => hfrees.1 huser) pool hpool' hne
    exact hsome (Option.some.inj (hleft.symm.trans hfreed))

end ParameterServer

end CheckpointEngine.Registry
