/-
  `Registry.Retrying`: unregistering a checkpoint once more after a failure, with
  `unregister_checkpoint` in `checkpoint_engine/ps.py`.

  Which buffers are pinned is part of the state here, since a buffer that has been unpinned
  cannot be unpinned again.  Neither the loop over the buffers nor the P2P store in front of
  it makes a note of how far it has got.
-/
import CheckpointEngine.Registry.Atomicity

set_option autoImplicit false

namespace CheckpointEngine.Registry

open CheckpointEngine.Foundation
open ParameterServer (unpinAll namedTensors)

/-- A parameter server, and the addresses that `cudaHostRegister` has pinned. -/
structure PinnedServer where
  server : ParameterServer
  pinned : List Nat

/-- What `_unpin` raises where nothing is pinned. -/
def notPinned : PyError := .assertionError "get pin flags error, error code: 1"

/-- `_unpin`; of a buffer that is pinned, as the backend answers. -/
def unpin (backend : Backend) (pinned : List Nat) (t : Tensor) : Except PyError (List Nat) :=
  if t.ptr ∈ pinned then
    match backend.unpinRaises t with
    | some error => .error error
    | none => .ok (pinned.filter (· ≠ t.ptr))
  else .error notPinned

/-- The loop over the memory pool. -/
def unpinBuffers (backend : Backend) : List MemoryBuffer → List Nat → Outcome PyError (List Nat)
  | [], pinned => .returned pinned
  | memoryBuffer :: rest, pinned =>
      if memoryBuffer.manuallyPinned then
        match unpin backend pinned memoryBuffer.buffer with
        | .error error => .raised error pinned
        | .ok pinned => unpinBuffers backend rest pinned
      else unpinBuffers backend rest pinned

namespace PinnedServer

/-- `unregister_checkpoint` behind the P2P store. -/
def dropCheckpoint (backend : Backend) (s : PinnedServer) (checkpointName : String) :
    Outcome PyError PinnedServer :=
  if checkpointName = s.server.currentUser then
    match s.server.dropCheckpoint backend checkpointName with
    | .raised error server => .raised error { s with server }
    | .returned server => .returned { s with server }
  else
    match unpinBuffers backend ((s.server.memoryPool checkpointName).getD []) s.pinned with
    | .raised error pinned => .raised error { s with pinned }
    | .returned pinned => .returned
        { server :=
            { s.server with
              memoryPool := Function.update s.server.memoryPool checkpointName none }
          pinned }

/-- `unregister_checkpoint`. -/
def unregisterCheckpoint (backend : Backend) (s : PinnedServer) (checkpointName : String)
    (force : Bool) : Outcome PyError PinnedServer :=
  if s.server.memoryPool checkpointName = none ∧ checkpointName ≠ s.server.currentUser then
    .returned s
  else if checkpointName = s.server.currentUser ∧ force = false then
    .returned { s with server := { s.server with currentUser := "" } }
  else if s.server.p2pStore.isSome then
    match s.server.unregisterParametersFromP2pStore backend checkpointName with
    | .error error => .raised error s
    | .ok server => dropCheckpoint backend { s with server } checkpointName
  else
    s.dropCheckpoint backend checkpointName

end PinnedServer

/-! ## The loop over the buffers -/

section Loop

variable {backend : Backend} {pool : List MemoryBuffer} {pinned : List Nat}

/-- The loop passes over what has not been pinned by hand. -/
theorem unpinBuffers_filter :
    unpinBuffers backend (pool.filter (·.manuallyPinned)) pinned =
      unpinBuffers backend pool pinned := by
  induction pool generalizing pinned with
  | nil => rfl
  | cons memoryBuffer rest ih =>
      rw [List.filter_cons]
      split
      · rename_i hmanual
        rw [unpinBuffers, unpinBuffers, if_pos hmanual, if_pos hmanual]
        cases unpin backend pinned memoryBuffer.buffer with
        | error error => rfl
        | ok pinned => exact ih
      · rename_i hmanual
        rw [ih, unpinBuffers, if_neg hmanual]

theorem unpin_pinned {t : Tensor} (h : t.ptr ∈ pinned) (hraises : backend.unpinRaises t = none) :
    unpin backend pinned t = .ok (pinned.filter (· ≠ t.ptr)) := by
  rw [unpin, if_pos h, hraises]

theorem unpin_refused {t : Tensor} {error : PyError} (h : t.ptr ∈ pinned)
    (hraises : backend.unpinRaises t = some error) : unpin backend pinned t = .error error := by
  rw [unpin, if_pos h, hraises]

theorem unpin_notPinned {t : Tensor} (h : t.ptr ∉ pinned) :
    unpin backend pinned t = .error notPinned := if_neg h

theorem unpin_ok {t : Tensor} {pinned' : List Nat} (h : unpin backend pinned t = .ok pinned') :
    pinned' = pinned.filter (· ≠ t.ptr) := by
  unfold unpin at h
  split at h
  · split at h
    · cases h
    · exact (Except.ok.inj h).symm
  · cases h

/-- The loop only ever unpins. -/
theorem unpinBuffers_subset {ptr : Nat} (h : ptr ∉ pinned) :
    ptr ∉ (unpinBuffers backend pool pinned).state := by
  induction pool generalizing pinned with
  | nil => exact h
  | cons memoryBuffer rest ih =>
      rw [unpinBuffers]
      split
      · cases hunpin : unpin backend pinned memoryBuffer.buffer with
        | error error => exact h
        | ok pinned' =>
            obtain rfl := unpin_ok hunpin
            exact ih fun hmem => h (List.mem_of_mem_filter hmem)
      · exact ih h

/-- Buffers at different places that are all pinned are unpinned, if none is refused. -/
theorem unpinBuffers_all (hmanual : ∀ b ∈ pool, b.manuallyPinned = true)
    (hpinned : ∀ b ∈ pool, b.buffer.ptr ∈ pinned) (hnodup : (pool.map (·.buffer.ptr)).Nodup)
    (hraises : ∀ b ∈ pool, backend.unpinRaises b.buffer = none) :
    ∃ pinned', unpinBuffers backend pool pinned = .returned pinned' ∧
      ∀ b ∈ pool, b.buffer.ptr ∉ pinned' := by
  induction pool generalizing pinned with
  | nil => exact ⟨pinned, rfl, nofun⟩
  | cons first rest ih =>
      obtain ⟨hfirst, hrest⟩ := List.nodup_cons.mp hnodup
      have hunpin := @unpin_pinned backend pinned first.buffer
        (hpinned first List.mem_cons_self) (hraises first List.mem_cons_self)
      have hstill : ∀ b ∈ rest, b.buffer.ptr ∈ pinned.filter (· ≠ first.buffer.ptr) := by
        intro b hb
        refine List.mem_filter.mpr ⟨hpinned b (List.mem_cons_of_mem _ hb), ?_⟩
        have hne : b.buffer.ptr ≠ first.buffer.ptr :=
          fun heq => hfirst (List.mem_map.mpr ⟨b, hb, heq⟩)
        exact decide_eq_true hne
      obtain ⟨pinned', hreturned, hgone⟩ := ih
        (fun b hb => hmanual b (List.mem_cons_of_mem _ hb)) hstill hrest
        fun b hb => hraises b (List.mem_cons_of_mem _ hb)
      have hloop : unpinBuffers backend (first :: rest) pinned = .returned pinned' := by
        rw [unpinBuffers, if_pos (hmanual first List.mem_cons_self), hunpin]
        exact hreturned
      refine ⟨pinned', hloop, fun b hb => ?_⟩
      rcases List.mem_cons.mp hb with rfl | hb
      · have hout := @unpinBuffers_subset backend rest (pinned.filter (· ≠ b.buffer.ptr))
          b.buffer.ptr (by simp)
        rw [hreturned] at hout
        exact hout
      · exact hgone b hb

end Loop

/-! ## The server alone -/

/-- The backend as a call finds it: what is not pinned cannot be unpinned. -/
def Backend.onPinned (backend : Backend) (pinned : List Nat) : Backend :=
  { backend with
    unpinRaises := fun t => if t.ptr ∈ pinned then backend.unpinRaises t else some notPinned }

/-- The addresses of a pool that are pinned by hand, in the order of the loop. -/
def manualPtrs (pool : List MemoryBuffer) : List Nat :=
  (pool.filter (·.manuallyPinned)).map (·.buffer.ptr)

theorem unpinAll_congr {backend backend' : Backend} {pool : List MemoryBuffer}
    (h : ∀ b ∈ pool, backend.unpinRaises b.buffer = backend'.unpinRaises b.buffer) :
    unpinAll backend pool = unpinAll backend' pool := by
  induction pool with
  | nil => rfl
  | cons first rest ih =>
      have hrest := ih fun b hb => h b (List.mem_cons_of_mem _ hb)
      simp only [unpinAll, List.filter_cons] at hrest ⊢
      split
      · rw [List.findSome?_cons, List.findSome?_cons, h first List.mem_cons_self, hrest]
      · exact hrest

theorem unpinAll_cons {backend : Backend} {first : MemoryBuffer} {rest : List MemoryBuffer}
    (hmanual : first.manuallyPinned = true) :
    unpinAll backend (first :: rest) =
      match backend.unpinRaises first.buffer with
      | some error => some error
      | none => unpinAll backend rest := by
  rw [unpinAll, List.filter_cons_of_pos hmanual, List.findSome?_cons]
  cases backend.unpinRaises first.buffer <;> rfl

theorem unpinAll_filter {backend : Backend} {pool : List MemoryBuffer} :
    unpinAll backend (pool.filter (·.manuallyPinned)) = unpinAll backend pool := by
  simp [unpinAll]

/-- Unpinning one buffer after the other fails as unpinning them all at once does, if no
buffer comes twice. -/
theorem unpinBuffers_unpinAll {backend : Backend} {pool : List MemoryBuffer} {pinned : List Nat}
    (hnodup : (manualPtrs pool).Nodup) :
    unpinAll (backend.onPinned pinned) pool =
      match unpinBuffers backend pool pinned with
      | .returned _ => none
      | .raised error _ => some error := by
  rw [← unpinBuffers_filter, ← unpinAll_filter]
  have hmanual : ∀ b ∈ pool.filter (·.manuallyPinned), b.manuallyPinned = true :=
    fun b hb => (List.mem_filter.mp hb).2
  rw [manualPtrs] at hnodup
  generalize pool.filter (·.manuallyPinned) = pool at hnodup hmanual
  induction pool generalizing pinned with
  | nil => rfl
  | cons first rest ih =>
      obtain ⟨hfirst, hrest⟩ := List.nodup_cons.mp hnodup
      have hfirstManual := hmanual first List.mem_cons_self
      rw [unpinBuffers, if_pos hfirstManual, unpinAll_cons hfirstManual]
      have hanswer : (backend.onPinned pinned).unpinRaises first.buffer =
          if first.buffer.ptr ∈ pinned then backend.unpinRaises first.buffer
          else some notPinned := rfl
      rw [hanswer]
      by_cases hmem : first.buffer.ptr ∈ pinned
      · rw [if_pos hmem]
        cases hraises : backend.unpinRaises first.buffer with
        | some error => rw [unpin_refused hmem hraises]
        | none =>
            rw [unpin_pinned hmem hraises]
            simp only
            rw [← ih hrest fun b hb => hmanual b (List.mem_cons_of_mem _ hb)]
            apply unpinAll_congr
            intro b hb
            have hne : b.buffer.ptr ≠ first.buffer.ptr :=
              fun heq => hfirst (List.mem_map.mpr ⟨b, hb, heq⟩)
            simp [Backend.onPinned, hne]
      · rw [if_neg hmem, unpin_notPinned hmem]

/-- Seen from the server, a call is the call of the model without the pinned addresses. -/
theorem PinnedServer.unregisterCheckpoint_server {backend : Backend} {s : PinnedServer}
    {name : String} {force : Bool}
    (hnodup : (manualPtrs ((s.server.memoryPool name).getD [])).Nodup) :
    (s.unregisterCheckpoint backend name force).map (·.server) =
      s.server.unregisterCheckpoint (backend.onPinned s.pinned) name force := by
  have hdrop : ∀ server : ParameterServer, server.memoryPool = s.server.memoryPool →
      (dropCheckpoint backend { s with server } name).map (·.server) =
        server.dropCheckpoint (backend.onPinned s.pinned) name := by
    intro server hpool
    unfold dropCheckpoint ParameterServer.dropCheckpoint
    simp only
    split
    · cases server.memoryPool sharedMemoryPoolName <;> rfl
    · rw [unpinBuffers_unpinAll (hpool ▸ hnodup)]
      cases unpinBuffers backend ((server.memoryPool name).getD []) s.pinned <;> rfl
  unfold unregisterCheckpoint ParameterServer.unregisterCheckpoint
  split
  · rfl
  · split
    · rfl
    · split
      · have hcases := ParameterServer.unregisterParameters_cases backend s.server name
        have heq : s.server.unregisterParametersFromP2pStore (backend.onPinned s.pinned) name =
            s.server.unregisterParametersFromP2pStore backend name := rfl
        rw [heq]
        obtain ⟨error, h, _⟩ | ⟨h, _⟩ | ⟨store, h, _⟩ := hcases
        · rw [h]
          rfl
        · rw [h]
          exact hdrop _ rfl
        · rw [h]
          exact hdrop _ rfl
      · exact hdrop _ rfl

/-! ## Attempts -/

/-- A separate checkpoint is registered: its pool is there, what is pinned by hand is pinned,
each at a place of its own, and the P2P store has all its buffers. -/
structure Registered (s : PinnedServer) (name : String) (pool : List MemoryBuffer) : Prop where
  separate : name ≠ s.server.currentUser
  entry : s.server.memoryPool name = some pool
  pinned : ∀ ptr ∈ manualPtrs pool, ptr ∈ s.pinned
  nodup : (manualPtrs pool).Nodup
  published : ∀ store, s.server.p2pStore = some store →
    ∀ entry ∈ namedTensors name pool, store.namedTensors entry.1 = some entry.2

/-- A call of `unregister_checkpoint`, and what it meets. -/
structure Attempt where
  backend : Backend
  force : Bool

/-- The state after some calls that have all raised. -/
def failAll (name : String) : PinnedServer → List Attempt → Option PinnedServer
  | s, [] => some s
  | s, attempt :: rest =>
      match s.unregisterCheckpoint attempt.backend name attempt.force with
      | .returned _ => none
      | .raised _ t => failAll name t rest

/-- The call returns, and the checkpoint is gone: no buffer is pinned, none is left in the P2P
store, and there is no pool. -/
def Unregisters (s : PinnedServer) (attempt : Attempt) (name : String)
    (pool : List MemoryBuffer) : Prop :=
  ∃ t, s.unregisterCheckpoint attempt.backend name attempt.force = .returned t ∧
    t.server.memoryPool name = none ∧ (∀ ptr ∈ manualPtrs pool, ptr ∉ t.pinned) ∧
    ∀ store, t.server.p2pStore = some store → ∀ entry ∈ namedTensors name pool,
      store.namedTensors entry.1 = none ∧ entry.2.ptr ∉ store.registered

/-- The first buffer to be unpinned cannot be. -/
def RefusesFirst (pool : List MemoryBuffer) (attempt : Attempt) : Prop :=
  ∃ b, (pool.filter (·.manuallyPinned)).head? = some b ∧
    (attempt.backend.unpinRaises b.buffer).isSome = true

/-- No attempt has failed, or there is no P2P store and all have failed at the first buffer. -/
def Retryable (s : PinnedServer) (pool : List MemoryBuffer) (attempts : List Attempt) : Prop :=
  attempts = [] ∨ s.server.p2pStore = none ∧ ∀ attempt ∈ attempts, RefusesFirst pool attempt

/-- No attempt gets through any more: the pool's names are not in the P2P store, or the first
buffer to be unpinned is not pinned. -/
structure Stuck (s : PinnedServer) (name : String) (pool : List MemoryBuffer) : Prop where
  separate : name ≠ s.server.currentUser
  entry : s.server.memoryPool name = some pool
  blocked : (pool ≠ [] ∧ ∃ store, s.server.p2pStore = some store ∧
      ∀ entry ∈ namedTensors name pool, store.namedTensors entry.1 = none) ∨
    s.server.p2pStore = none ∧
      ∃ b, (pool.filter (·.manuallyPinned)).head? = some b ∧ b.buffer.ptr ∉ s.pinned

section Attempts

variable {s t : PinnedServer} {name : String} {pool : List MemoryBuffer} {attempt : Attempt}

/-- A call for a separate checkpoint that is registered. -/
theorem unregisterCheckpoint_separate (hname : name ≠ s.server.currentUser)
    (hpool : s.server.memoryPool name = some pool) {backend : Backend} {force : Bool} :
    s.unregisterCheckpoint backend name force =
      if s.server.p2pStore.isSome then
        match s.server.unregisterParametersFromP2pStore backend name with
        | .error error => .raised error s
        | .ok server => PinnedServer.dropCheckpoint backend { s with server } name
      else s.dropCheckpoint backend name := by
  rw [PinnedServer.unregisterCheckpoint, if_neg, if_neg]
  · exact fun h => hname h.1
  · intro h
    rw [hpool] at h
    cases h.1

theorem dropCheckpoint_separate (hname : name ≠ s.server.currentUser)
    (hpool : s.server.memoryPool name = some pool) {backend : Backend} :
    s.dropCheckpoint backend name =
      match unpinBuffers backend (pool.filter (·.manuallyPinned)) s.pinned with
      | .raised error pinned => .raised error { s with pinned }
      | .returned pinned => .returned
          { server :=
              { s.server with memoryPool := Function.update s.server.memoryPool name none }
            pinned } := by
  rw [PinnedServer.dropCheckpoint, if_neg hname, hpool, Option.getD_some, ← unpinBuffers_filter]

/-- An attempt on a stuck checkpoint raises and changes nothing. -/
theorem Stuck.raises (h : Stuck s name pool) :
    ∃ error, s.unregisterCheckpoint attempt.backend name attempt.force = .raised error s := by
  rw [unregisterCheckpoint_separate h.separate h.entry]
  obtain ⟨hne, store, hstore, hgone⟩ | ⟨hstore, first, hfirst, hout⟩ := h.blocked
  · rw [hstore, Option.isSome_some, if_pos rfl]
    have hgot := ParameterServer.getMemoryPool_own h.separate h.entry
    have hregister : s.server.registerName name = name := if_pos h.separate
    have hnot : ¬ ParameterServer.Unpublishes attempt.backend s.server name := by
      have hagain := @ParameterServer.not_unpublishes_again attempt.backend s.server name store
        pool hgot
      rw [hregister, ← hstore] at hagain
      apply hagain
      intro key hkey
      obtain ⟨entry, hentry, rfl⟩ := List.mem_map.mp hkey
      exact hgone entry hentry
    obtain ⟨error, herror, _⟩ | ⟨_, hnil, _⟩ | ⟨_, _, hunpublishes, _⟩ :=
      ParameterServer.unregisterParameters_cases attempt.backend s.server name
    · rw [herror]
      exact ⟨error, rfl⟩
    · exact absurd (Except.ok.inj (hgot.symm.trans hnil)) hne
    · exact absurd hunpublishes hnot
  · rw [hstore, Option.isSome_none, if_neg Bool.false_ne_true,
      dropCheckpoint_separate h.separate h.entry]
    obtain ⟨rest, hrest⟩ := List.head?_eq_some_iff.mp hfirst
    have hmanual : first.manuallyPinned = true :=
      (List.mem_filter.mp (hrest ▸ List.mem_cons_self)).2
    rw [hrest, unpinBuffers, if_pos hmanual, unpin_notPinned hout]
    exact ⟨notPinned, rfl⟩

/-- The P2P store gives up what it has, and an engine that rejects nothing lets it. -/
theorem P2PStore.unregisterNamedTensors_published {backend : Backend} {store : P2PStore}
    {entries : List (String × Tensor)}
    (hentries : ∀ entry ∈ entries, store.namedTensors entry.1 = some entry.2)
    (hengine : ∀ addresses, backend.unregisters addresses = true) :
    ∃ store', store.unregisterNamedTensors backend (entries.map Prod.fst) = .ok store' ∧
      ∀ entry ∈ entries, store'.namedTensors entry.1 = none ∧ entry.2.ptr ∉ store'.registered := by
  have hok : store.unregisterNamedTensors backend (entries.map Prod.fst) =
      .ok ⟨fun name => if name ∈ entries.map Prod.fst then none else store.namedTensors name,
        store.registered.filter (· ∉ entries.map (·.2.ptr))⟩ := by
    rw [P2PStore.unregisterNamedTensors, P2PStore.addresses_of_named hentries]
    exact if_pos (hengine _)
  refine ⟨_, hok, fun entry hentry => ⟨if_pos (List.mem_map_of_mem hentry), fun hmem => ?_⟩⟩
  have hout := (List.mem_filter.mp hmem).2
  exact of_decide_eq_true hout (List.mem_map.mpr ⟨entry, hentry, rfl⟩)

/-- The buffers of a registered checkpoint are taken out of the P2P store. -/
theorem Registered.unpublish (h : Registered s name pool) {store : P2PStore}
    (hstore : s.server.p2pStore = some store) {backend : Backend}
    (hengine : ∀ addresses, backend.unregisters addresses = true) :
    ∃ store', s.server.unregisterParametersFromP2pStore backend name =
        .ok { s.server with p2pStore := some store' } ∧
      ∀ entry ∈ namedTensors name pool,
        store'.namedTensors entry.1 = none ∧ entry.2.ptr ∉ store'.registered := by
  have hgot := ParameterServer.getMemoryPool_own h.separate h.entry
  have hregister : s.server.registerName name = name := if_pos h.separate
  unfold ParameterServer.unregisterParametersFromP2pStore
  rw [hstore, hgot]
  cases hpool : pool with
  | nil =>
      have hsame : { s.server with p2pStore := some store } = s.server := by
        rw [← hstore]
      exact ⟨store, congrArg Except.ok hsame.symm, nofun⟩
  | cons first rest =>
      have hpublished := h.published store hstore
      rw [hpool] at hpublished
      obtain ⟨store', hok, hgone⟩ :=
        P2PStore.unregisterNamedTensors_published hpublished hengine
      refine ⟨store', ?_, hgone⟩
      rw [hregister]
      change (store.unregisterNamedTensors backend _).bind _ = _
      rw [hok]
      rfl

/-- A first attempt that fails without a P2P store: at the first buffer and without a trace, or
for good. -/
theorem Registered.fails_withoutStore (h : Registered s name pool)
    (hstore : s.server.p2pStore = none) {error : PyError}
    (hraised : s.unregisterCheckpoint attempt.backend name attempt.force = .raised error t) :
    t = s ∧ RefusesFirst pool attempt ∨ Stuck t name pool ∧ ¬ RefusesFirst pool attempt := by
  rw [unregisterCheckpoint_separate h.separate h.entry, hstore, Option.isSome_none,
    if_neg Bool.false_ne_true, dropCheckpoint_separate h.separate h.entry] at hraised
  have hmanual : ∀ b ∈ pool.filter (·.manuallyPinned), b.manuallyPinned = true :=
    fun b hb => (List.mem_filter.mp hb).2
  have hpinned := h.pinned
  rw [manualPtrs] at hpinned
  cases hfilter : pool.filter (·.manuallyPinned) with
  | nil =>
      rw [hfilter] at hraised
      cases hraised
  | cons first rest =>
      have hfirst : (pool.filter (·.manuallyPinned)).head? = some first := by
        rw [hfilter]
        rfl
      rw [hfilter] at hraised hmanual hpinned
      have hmem : first.buffer.ptr ∈ s.pinned := hpinned _ List.mem_cons_self
      rw [unpinBuffers, if_pos (hmanual first List.mem_cons_self)] at hraised
      cases hanswer : attempt.backend.unpinRaises first.buffer with
      | some refusal =>
          rw [unpin_refused hmem hanswer] at hraised
          obtain ⟨-, rfl⟩ := Outcome.raised.inj hraised
          exact .inl ⟨rfl, first, hfirst, by rw [hanswer]; rfl⟩
      | none =>
          rw [unpin_pinned hmem hanswer] at hraised
          have hout : first.buffer.ptr ∉ (unpinBuffers attempt.backend rest
              (s.pinned.filter (· ≠ first.buffer.ptr))).state :=
            unpinBuffers_subset (by simp)
          simp only at hraised
          cases hloop : unpinBuffers attempt.backend rest
              (s.pinned.filter (· ≠ first.buffer.ptr)) with
          | returned pinned =>
              rw [hloop] at hraised
              cases hraised
          | raised refusal pinned =>
              rw [hloop] at hraised hout
              obtain ⟨-, rfl⟩ := Outcome.raised.inj hraised
              refine .inr ⟨⟨h.separate, h.entry, .inr ⟨hstore, first, hfirst, hout⟩⟩, ?_⟩
              rintro ⟨b, hb, hrefused⟩
              obtain rfl := Option.some.inj (hfirst.symm.trans hb)
              rw [hanswer] at hrefused
              cases hrefused

/-- With a P2P store it fails for good. -/
theorem Registered.fails_withStore (h : Registered s name pool)
    (hengine : ∀ addresses, attempt.backend.unregisters addresses = true) {store : P2PStore}
    (hstore : s.server.p2pStore = some store) {error : PyError}
    (hraised : s.unregisterCheckpoint attempt.backend name attempt.force = .raised error t) :
    Stuck t name pool := by
  obtain ⟨store', hok, hgone⟩ := h.unpublish hstore hengine
  rw [unregisterCheckpoint_separate h.separate h.entry, hstore, Option.isSome_some, if_pos rfl,
    hok] at hraised
  simp only at hraised
  rw [@dropCheckpoint_separate ⟨{ s.server with p2pStore := some store' }, s.pinned⟩ name pool
    h.separate h.entry] at hraised
  cases hloop : unpinBuffers attempt.backend (pool.filter (·.manuallyPinned)) s.pinned with
  | returned pinned =>
      rw [hloop] at hraised
      cases hraised
  | raised refusal pinned =>
      rw [hloop] at hraised
      obtain ⟨-, rfl⟩ := Outcome.raised.inj hraised
      refine ⟨h.separate, h.entry, .inl ⟨?_, store', rfl, ?_⟩⟩
      · rintro rfl
        cases hloop
      · exact fun entry hentry => (hgone entry hentry).1

/-- A first attempt that fails, where the engine rejects nothing: without a P2P store, at the
first buffer and without a trace, or else for good. -/
theorem Registered.fails (h : Registered s name pool)
    (hengine : ∀ addresses, attempt.backend.unregisters addresses = true) {error : PyError}
    (hraised : s.unregisterCheckpoint attempt.backend name attempt.force = .raised error t) :
    t = s ∧ s.server.p2pStore = none ∧ RefusesFirst pool attempt ∨
      Stuck t name pool ∧ ¬ (s.server.p2pStore = none ∧ RefusesFirst pool attempt) := by
  cases hstore : s.server.p2pStore with
  | none =>
      rcases h.fails_withoutStore hstore hraised with ⟨hsame, hfirst⟩ | ⟨hstuck, hnot⟩
      · exact .inl ⟨hsame, rfl, hfirst⟩
      · exact .inr ⟨hstuck, fun hrefuses => hnot hrefuses.2⟩
  | some store =>
      exact .inr ⟨h.fails_withStore hengine hstore hraised, fun hnone => nomatch hnone.1⟩

/-- Where nothing is refused, a registered checkpoint is unregistered. -/
theorem Registered.unregisters (h : Registered s name pool)
    (hengine : ∀ addresses, attempt.backend.unregisters addresses = true)
    (hquiet : ∀ b ∈ pool, b.manuallyPinned = true → b.buffer.ptr ∈ s.pinned →
      attempt.backend.unpinRaises b.buffer = none) :
    Unregisters s attempt name pool := by
  have hmem : ∀ b ∈ pool.filter (·.manuallyPinned), b.buffer.ptr ∈ s.pinned :=
    fun b hb => h.pinned _ (List.mem_map_of_mem hb)
  obtain ⟨pinned, hloop, hgone⟩ := unpinBuffers_all
    (fun b hb => (List.mem_filter.mp hb).2) hmem h.nodup
    fun b hb => hquiet b (List.mem_of_mem_filter hb) (List.mem_filter.mp hb).2 (hmem b hb)
  have hnotPinned : ∀ ptr ∈ manualPtrs pool, ptr ∉ pinned := by
    intro ptr hptr
    obtain ⟨b, hb, rfl⟩ := List.mem_map.mp hptr
    exact hgone b hb
  rw [Unregisters, unregisterCheckpoint_separate h.separate h.entry]
  cases hstore : s.server.p2pStore with
  | none =>
      rw [Option.isSome_none, if_neg Bool.false_ne_true,
        dropCheckpoint_separate h.separate h.entry, hloop]
      refine ⟨_, rfl, Function.update_self .., hnotPinned, fun store hnone => ?_⟩
      rw [hstore] at hnone
      cases hnone
  | some store =>
      obtain ⟨store', hok, hunpublished⟩ := h.unpublish hstore hengine
      rw [Option.isSome_some, if_pos rfl, hok]
      simp only
      rw [@dropCheckpoint_separate ⟨{ s.server with p2pStore := some store' }, s.pinned⟩ name pool
        h.separate h.entry, hloop]
      refine ⟨_, rfl, Function.update_self .., hnotPinned, fun store hstore => ?_⟩
      obtain rfl := Option.some.inj hstore
      exact hunpublished

/-- Attempts on a stuck checkpoint lead nowhere. -/
theorem Stuck.failAll {attempts : List Attempt} (h : Stuck s name pool)
    (hfails : failAll name s attempts = some t) : t = s := by
  induction attempts with
  | nil => exact (Option.some.inj hfails).symm
  | cons attempt rest ih =>
      obtain ⟨error, hraised⟩ := @Stuck.raises s name pool attempt h
      rw [Registry.failAll, hraised] at hfails
      exact ih hfails

/-- After any failed attempts the checkpoint is as it was, or stuck. -/
theorem Registered.failAll {attempts : List Attempt} (h : Registered s name pool)
    (hengine : ∀ attempt ∈ attempts, ∀ addresses, attempt.backend.unregisters addresses = true)
    (hfails : failAll name s attempts = some t) :
    t = s ∧ Retryable s pool attempts ∨ Stuck t name pool ∧ ¬ Retryable s pool attempts := by
  induction attempts with
  | nil => exact .inl ⟨(Option.some.inj hfails).symm, .inl rfl⟩
  | cons attempt rest ih =>
      rw [Registry.failAll] at hfails
      cases hraised : s.unregisterCheckpoint attempt.backend name attempt.force with
      | returned u =>
          rw [hraised] at hfails
          cases hfails
      | raised error u =>
          rw [hraised] at hfails
          obtain ⟨rfl, hstore, hrefused⟩ | ⟨hstuck, hnot⟩ :=
            h.fails (hengine attempt List.mem_cons_self) hraised
          · have hretry : Retryable u pool (attempt :: rest) ↔ Retryable u pool rest := by
              simp only [Retryable, hstore, List.forall_mem_cons, hrefused, true_and]
              constructor
              · exact fun hall => .inr (hall.resolve_left (List.cons_ne_nil attempt rest))
              · rintro (rfl | hall)
                · exact .inr nofun
                · exact .inr hall
            rw [hretry]
            exact ih (fun other hother => hengine other (List.mem_cons_of_mem _ hother)) hfails
          · obtain rfl := hstuck.failAll hfails
            refine .inr ⟨hstuck, fun hretry => hnot ?_⟩
            obtain hnil | ⟨hstore, hall⟩ := hretry
            · cases hnil
            · exact ⟨hstore, hall attempt List.mem_cons_self⟩

end Attempts

/-- After any number of failed attempts the checkpoint is still registered, and an attempt in
which nothing is refused unregisters it, exactly where there has been none or, without a
P2P store, all have failed at the first buffer. -/
theorem retry_succeeds_iff {s t : PinnedServer} {name : String} {pool : List MemoryBuffer}
    {attempts : List Attempt} {last : Attempt} (h : Registered s name pool)
    (hengine : ∀ attempt ∈ last :: attempts, ∀ addresses,
      attempt.backend.unregisters addresses = true)
    (hfails : failAll name s attempts = some t)
    (hquiet : ∀ b ∈ pool, b.manuallyPinned = true → b.buffer.ptr ∈ t.pinned →
      last.backend.unpinRaises b.buffer = none) :
    t.server.memoryPool name = some pool ∧ Unregisters t last name pool ↔
      Retryable s pool attempts := by
  have hcases := h.failAll
    (fun attempt hattempt => hengine attempt (List.mem_cons_of_mem _ hattempt)) hfails
  obtain ⟨rfl, hretry⟩ | ⟨hstuck, hnot⟩ := hcases
  · have hunregisters := h.unregisters (hengine last List.mem_cons_self) hquiet
    exact iff_of_true ⟨h.entry, hunregisters⟩ hretry
  · refine iff_of_false (fun ⟨_, u, hreturned, _⟩ => ?_) hnot
    obtain ⟨error, hraised⟩ := @Stuck.raises t name pool last hstuck
    rw [hraised] at hreturned
    cases hreturned

/-! ## Two pinned buffers -/

/-- A backend that refuses to unpin at the addresses given, and does nothing else wrong. -/
def refusingBackend (ptrs : List Nat) : Backend :=
  ⟨⟨fun _ => .ok [], fun _ => .error (.keyError ""), id, fun _ => none⟩, true, fun _ => true,
    fun _ => true,
    fun t => if t.ptr ∈ ptrs then some (.runtimeError "unpin memory error") else none⟩

/-- Two files pinned in place. -/
def twoPinned : List MemoryBuffer :=
  [⟨⟨0x1000, 4⟩, 4, [⟨"a", .float32, [1], 4⟩], true⟩,
    ⟨⟨0x2000, 4⟩, 4, [⟨"b", .float32, [1], 4⟩], true⟩]

/-- They are registered as `"c"`. -/
def twoPinnedServer (p2pStore : Option P2PStore) : PinnedServer where
  server :=
    { memoryPool := Function.update (ParameterServer.fresh false).memoryPool "c" (some twoPinned)
      currentUser := ""
      p2pStore }
  pinned := [0x1000, 0x2000]

/-- Their store. -/
def twoPinnedStore : P2PStore where
  namedTensors name := ((namedTensors "c" twoPinned).find? (·.1 = name)).map (·.2)
  registered := [0x1000, 0x2000]

theorem twoPinnedServer_registered {p2pStore : Option P2PStore}
    (h : ∀ store, p2pStore = some store → store = twoPinnedStore) :
    Registered (twoPinnedServer p2pStore) "c" twoPinned where
  separate := (by decide : "c" ≠ "")
  entry := rfl
  pinned ptr hptr := hptr
  nodup := by decide
  published := by
    intro store hstore
    obtain rfl := h store hstore
    decide

/-- Without a P2P store, two attempts fail at the first buffer, and a third one gets through. -/
theorem retry_succeeds_iff_firstRefused :
    Unregisters (twoPinnedServer none) ⟨refusingBackend [], false⟩ "c" twoPinned := by
  have hregistered := @twoPinnedServer_registered none fun _ hnone => nomatch hnone
  have hrefused : ∀ attempt ∈
      [(⟨refusingBackend [0x1000], false⟩ : Attempt), ⟨refusingBackend [0x1000], true⟩],
      RefusesFirst twoPinned attempt := by
    intro attempt hattempt
    refine ⟨_, rfl, ?_⟩
    rcases List.mem_pair.mp hattempt with rfl | rfl <;> rfl
  apply ((@retry_succeeds_iff (twoPinnedServer none) _ "c" twoPinned _ ⟨refusingBackend [], false⟩
    hregistered _ rfl _).mpr (.inr ⟨rfl, hrefused⟩)).2
  · intro attempt hattempt addresses
    simp only [List.mem_cons, List.not_mem_nil, or_false] at hattempt
    rcases hattempt with rfl | rfl | rfl <;> rfl
  · exact fun _ _ _ _ => rfl

/-- After an attempt that failed at the second buffer, or at the first one with a P2P store, an
attempt in which nothing is refused raises as well. -/
theorem retry_fails :
    (Registered (twoPinnedServer none) "c" twoPinned ∧
      ∃ t, failAll "c" (twoPinnedServer none) [⟨refusingBackend [0x2000], false⟩] = some t ∧
        t.pinned = [0x2000] ∧
        (t.unregisterCheckpoint (refusingBackend []) "c" false).map (·.pinned) =
          .raised notPinned [0x2000] ∧
        ¬ Unregisters t ⟨refusingBackend [], false⟩ "c" twoPinned) ∧
      Registered (twoPinnedServer (some twoPinnedStore)) "c" twoPinned ∧
      ∃ t, failAll "c" (twoPinnedServer (some twoPinnedStore))
          [⟨refusingBackend [0x1000], false⟩] = some t ∧
        t.pinned = [0x1000, 0x2000] ∧
        (t.unregisterCheckpoint (refusingBackend []) "c" false).map (·.pinned) =
          .raised (.keyError "memory_pool_c_0") [0x1000, 0x2000] ∧
        ¬ Unregisters t ⟨refusingBackend [], false⟩ "c" twoPinned := by
  refine ⟨⟨twoPinnedServer_registered (fun _ hnone => nomatch hnone), _, rfl, rfl, rfl, ?_⟩,
    twoPinnedServer_registered fun _ hstore => (Option.some.inj hstore).symm,
    _, rfl, rfl, rfl, ?_⟩
  · rintro ⟨u, hreturned, _⟩
    cases hreturned
  · rintro ⟨u, hreturned, _⟩
    cases hreturned

end CheckpointEngine.Registry
