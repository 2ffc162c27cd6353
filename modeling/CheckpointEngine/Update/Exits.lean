/-
  `Update.Exits`: when `_update_per_bucket` leaves nothing behind.

  What is acquired before the `try` is released by its `finally` only, so an exception in
  between leaves it; and the `finally` stops at the first release that raises.
-/
import CheckpointEngine.Update.Resources

set_option autoImplicit false

namespace CheckpointEngine.Update

open CheckpointEngine.Foundation
open CheckpointEngine.Foundation.Command
open CheckpointEngine.Registry (P2PStore Tensor)

variable {x : Exchange} {h : Held}

/-! ## The loop holds on to everything -/

/-- What is acquired and released. -/
def Held.resources (h : Held) : Option P2PStore × Bool × Bool × Bool × Bool :=
  (h.p2pStore, h.bound, h.socketClosed, h.threadStarted, h.threadJoined)

/-- The same resources are held. -/
def SameResources (h t : Held) : Prop := t.resources = h.resources

@[simp] theorem sameResources_gidx {t : Held} {g : Nat} :
    SameResources h { t with gidx := g } ↔ SameResources h t := Iff.rfl

@[simp] theorem sameResources_retCode {t : Held} {retCode : Nat} :
    SameResources h { t with retCode } ↔ SameResources h t := Iff.rfl

theorem turnStep_sameResources {p2pUpdate disableH2dBuffer : Bool} {buckets : List Planned}
    {i : Nat} {receiver : Rank} {bucket : H2DBucket} {t : Held} (ht : SameResources h t) :
    Keeps (turnStep x p2pUpdate disableH2dBuffer buckets i receiver bucket) (SameResources h)
      t := by
  simp [turnStep, Keeps, ht]

theorem rowStep_sameResources {p2pUpdate disableH2dBuffer : Bool} {buckets : List Planned} {i : Nat}
    {t : Held} (ht : SameResources h t) :
    Keeps (rowStep x p2pUpdate disableH2dBuffer buckets i) (SameResources h) t := by
  refine keeps_ite (keeps_bind (keeps_attempt ht) fun _ t ht => keeps_forM ?_ ht)
    (keeps_forM ?_ ht)
  all_goals
    intro entry t ht
    obtain ⟨receiver, own⟩ := entry
    cases hown : own[i]? with
    | none =>
        simp only [hown]
        exact ht
    | some bucket =>
        simp only [hown]
        exact turnStep_sameResources ht

/-- Whatever happens in the body of the `try`, nothing is acquired or released in it. -/
theorem exchangeBuckets_sameResources {p2pUpdate disableH2dBuffer : Bool} {buckets : List Planned} :
    Keeps (exchangeBuckets x p2pUpdate disableH2dBuffer buckets) (SameResources h) h := by
  apply keeps_bind (keeps_forM (fun i _ => rowStep_sameResources) rfl)
  intro _ _ ht
  apply keeps_bind (keeps_attempt ht)
  intro _ _ ht
  apply keeps_bind (keeps_attempt ht)
  intro _ _ ht
  apply keeps_bind (keeps_attempt ht)
  intro _ _ ht
  apply keeps_bind (keeps_attempt ht)
  intro _ _ ht
  exact keeps_bind (keeps_attempt ht) fun _ _ => keeps_attempt

/-! ## The `finally` -/

/-- The entry of the IPC buffer in a store. -/
def ipcEntry (store : Option P2PStore) : Option Tensor :=
  store.bind fun store => store.namedTensors p2pIpcBufferName

theorem clean_iff : h.Clean ↔ ipcEntry h.p2pStore = none ∧
    (h.bound = true → h.socketClosed = true) ∧
      (h.threadStarted = true → h.threadJoined = true) := by
  have hstore : (∀ store, h.p2pStore = some store → store.namedTensors p2pIpcBufferName = none) ↔
      ipcEntry h.p2pStore = none := by
    rw [ipcEntry]
    cases h.p2pStore <;> simp
  rw [← hstore]
  exact ⟨fun hclean => ⟨hclean.store, hclean.socket, hclean.thread⟩,
    fun ⟨hnone, hsocket, hthread⟩ => ⟨hnone, hsocket, hthread⟩⟩

/-- Taking the entry out succeeds exactly if the engine gives the memory back. -/
theorem unregisterNamedTensors_ipcBuffer {engine : Registry.Backend} {store : P2PStore}
    {tensor : Tensor} (hname : store.namedTensors p2pIpcBufferName = some tensor) :
    store.unregisterNamedTensors engine [p2pIpcBufferName] =
      if engine.unregisters [tensor.ptr] then
        .ok ⟨fun name => if name ∈ [p2pIpcBufferName] then none else store.namedTensors name,
          store.registered.filter (· ∉ [tensor.ptr])⟩
      else .error (.assertionError "") := by
  have haddresses : store.addresses [p2pIpcBufferName] = .ok [tensor.ptr] := by
    simp only [P2PStore.addresses, hname]
    rfl
  rw [P2PStore.unregisterNamedTensors, haddresses]
  rfl

theorem wp_unregisterIpcBuffer {tensor : Tensor} (hentry : ipcEntry h.p2pStore = some tensor) :
    wp (unregisterIpcBuffer x)
      (fun _ t => x.engine.unregisters [tensor.ptr] = true ∧ ipcEntry t.p2pStore = none ∧
        t = { h with p2pStore := t.p2pStore })
      (fun _ t => x.engine.unregisters [tensor.ptr] ≠ true ∧ t = h) h := by
  obtain ⟨store, hstore, hname⟩ := Option.bind_eq_some_iff.mp hentry
  simp only [unregisterIpcBuffer, wp_bind, wp_get, hstore,
    unregisterNamedTensors_ipcBuffer hname]
  split
  · rename_i hreleased
    exact ⟨hreleased, by simp [ipcEntry], rfl⟩
  · rename_i hrefused
    exact ⟨hrefused, rfl⟩

/-- What the `finally` does where the socket is bound and the thread has been started. -/
theorem release_clean_iff {p2pUpdate : Bool} {tensor : Tensor} (hbound : h.bound = true)
    (hopen : h.socketClosed = false)
    (hentry : p2pUpdate = true → ipcEntry h.p2pStore = some tensor) :
    Keeps (release x p2pUpdate)
      (fun t => t.Clean ↔ x.raises .closingBarrier = none ∧
        (p2pUpdate = false → ipcEntry h.p2pStore = none) ∧
        (p2pUpdate = true → x.engine.unregisters [tensor.ptr] = true)) h := by
  simp only [release, Keeps, wp_bind, wp_modify]
  rw [wp_attempt]
  refine ⟨fun hbarrier => ?_, fun e he => ?_⟩
  · rw [wp_ite]
    simp only [hbarrier, true_and]
    refine ⟨fun hp2p => ?_, fun hbroadcast => ?_⟩
    · rw [wp_bind]
      apply wp_mono (wp_unregisterIpcBuffer (by exact hentry hp2p))
      · rintro _ t ⟨hreleased, hnone, ht⟩
        have hclean : t.Clean := by
          rw [clean_iff, ht]
          exact ⟨hnone, fun _ => rfl, fun _ => rfl⟩
        have hcond : t.Clean ↔ (p2pUpdate = false → ipcEntry h.p2pStore = none) ∧
            (p2pUpdate = true → x.engine.unregisters [tensor.ptr] = true) :=
          iff_of_true hclean
            ⟨fun hfalse => (by rw [hp2p] at hfalse; cases hfalse), fun _ => hreleased⟩
        exact wp_attempt.mpr ⟨fun _ => hcond, fun _ _ => hcond⟩
      · rintro _ t ⟨hrefused, rfl⟩
        refine iff_of_false (fun hclean => ?_) fun hcond => hrefused (hcond.2 hp2p)
        have hnone : ipcEntry h.p2pStore = none := (clean_iff.mp hclean).1
        rw [hentry hp2p] at hnone
        cases hnone
    · have hcond : Held.Clean { h with threadJoined := true, socketClosed := true } ↔
          (p2pUpdate = false → ipcEntry h.p2pStore = none) ∧
            (p2pUpdate = true → x.engine.unregisters [tensor.ptr] = true) := by
        rw [clean_iff]
        have hfalse : p2pUpdate = false := by simpa using hbroadcast
        exact ⟨fun hclean => ⟨fun _ => hclean.1, fun htrue => absurd htrue hbroadcast⟩,
          fun hcond => ⟨hcond.1 hfalse, fun _ => rfl, fun _ => rfl⟩⟩
      exact wp_attempt.mpr ⟨fun _ => hcond, fun _ _ => hcond⟩
  · -- the socket is not closed behind a barrier that raises
    refine iff_of_false (fun hclean => ?_) fun hcond => ?_
    · have hclosed : h.socketClosed = true := (clean_iff.mp hclean).2.1 hbound
      rw [hopen] at hclosed
      cases hclosed
    · rw [hcond.1] at he
      cases he

/-- The `try` with its `finally`, where the socket is bound and the thread has been
started. -/
theorem tryFinally_clean_iff {p2pUpdate disableH2dBuffer : Bool} {buckets : List Planned}
    (tensor : Tensor) (hbound : h.bound = true) (hopen : h.socketClosed = false)
    (hentry : p2pUpdate = true → ipcEntry h.p2pStore = some tensor) :
    Keeps (tryFinally (exchangeBuckets x p2pUpdate disableH2dBuffer buckets)
        (release x p2pUpdate))
      (fun t => t.Clean ↔ x.raises .closingBarrier = none ∧
        (p2pUpdate = false → ipcEntry h.p2pStore = none) ∧
        (p2pUpdate = true → x.engine.unregisters [tensor.ptr] = true)) h := by
  have hrelease : ∀ t, SameResources h t → Keeps (release x p2pUpdate)
      (fun t => t.Clean ↔ x.raises .closingBarrier = none ∧
        (p2pUpdate = false → ipcEntry h.p2pStore = none) ∧
        (p2pUpdate = true → x.engine.unregisters [tensor.ptr] = true)) t := by
    intro t ht
    simp only [SameResources, Held.resources, Prod.mk.injEq] at ht
    obtain ⟨hstore, hbound', hclosed', -⟩ := ht
    rw [← hstore] at hentry ⊢
    exact release_clean_iff (hbound'.trans hbound) (hclosed'.trans hopen) hentry
  rw [Keeps, wp_tryFinally]
  exact wp_mono exchangeBuckets_sameResources (fun _ => hrelease) fun _ => hrelease

/-! ## Before the `try` -/

/-- Nothing raises between the binding of the socket and the `try`. -/
def Starts (x : Exchange) : Prop :=
  x.raises .startThread = none ∧ x.raises .sendHandle = none ∧ x.raises .allocateRetCode = none

/-- The handle is exported and the socket bound. -/
def Binds (x : Exchange) : Prop :=
  x.raises .export = none ∧ x.raises .makeSocket = none ∧ x.raises .bind = none

/-- Registering the IPC buffer enters it, whatever the engine says. -/
theorem wp_registerIpcBuffer {tensor : Tensor} {store : P2PStore}
    (hstore : h.p2pStore = some store) :
    wp (registerIpcBuffer x tensor)
      (fun _ t => x.engine.registers [tensor.ptr] = true ∧ ipcEntry t.p2pStore = some tensor ∧
        t = { h with p2pStore := t.p2pStore })
      (fun _ t => x.engine.registers [tensor.ptr] ≠ true ∧ ipcEntry t.p2pStore = some tensor)
      h := by
  simp only [registerIpcBuffer, wp_bind, wp_get, hstore, P2PStore.registerNamedTensors,
    List.map_cons, List.map_nil, List.foldl_cons, List.foldl_nil]
  split
  · rename_i store' hreturned
    split at hreturned
    · rename_i hregisters
      obtain rfl := Outcome.returned.inj hreturned
      exact ⟨hregisters, by simp [ipcEntry], rfl⟩
    · cases hreturned
  · rename_i e store' hraised
    split at hraised
    · cases hraised
    · rename_i hrefused
      obtain ⟨-, rfl⟩ := Outcome.raised.inj hraised
      exact ⟨hrefused, by simp [ipcEntry]⟩

/-- The call cleans up behind itself once it has come to its acquisitions: it is a broadcast
without a buffer left in the store, or a P2P update in which the engine takes the IPC buffer
and gives it back; nothing raises between the binding and the `try`, nor the closing barrier;
and a P2P update gets as far as the binding. -/
def CleansUp (x : Exchange) (p2pUpdate : Bool) (tensor : Tensor) (store : Option P2PStore) : Prop :=
  (p2pUpdate = false → ipcEntry store = none) ∧
    (Binds x → Starts x ∧ x.raises .closingBarrier = none) ∧
    (p2pUpdate = true → Binds x ∧ x.engine.registers [tensor.ptr] = true ∧
      x.engine.unregisters [tensor.ptr] = true)

theorem wp_exportAndBind {E : Held → Prop} (hclosed : h.socketClosed = false)
    (hexport : ¬ Binds x → E h)
    (hstart : Binds x → ¬ Starts x → ∀ t, t.bound = true → t.socketClosed = false → E t) :
    wp (exportAndBind x)
      (fun _ t => Binds x ∧ Starts x ∧ t = { h with bound := true, threadStarted := true })
      (fun _ t => E t) h := by
  simp only [exportAndBind, bindSocket, wp_bind, wp_attempt, wp_modify]
  refine ⟨fun hexp => ⟨fun hsocket => ⟨fun hbind => ⟨fun hthread => ⟨fun hsend =>
    ⟨fun hretCode => ?_, ?_⟩, ?_⟩, ?_⟩, ?_⟩, ?_⟩, ?_⟩
  · exact ⟨⟨hexp, hsocket, hbind⟩, ⟨hthread, hsend, hretCode⟩, trivial⟩
  · intro e he
    refine hstart ⟨hexp, hsocket, hbind⟩ (fun hstarts => ?_) _ rfl hclosed
    rw [hstarts.2.2] at he
    cases he
  · intro e he
    refine hstart ⟨hexp, hsocket, hbind⟩ (fun hstarts => ?_) _ rfl hclosed
    rw [hstarts.2.1] at he
    cases he
  · intro e he
    refine hstart ⟨hexp, hsocket, hbind⟩ (fun hstarts => ?_) _ rfl hclosed
    rw [hstarts.1] at he
    cases he
  · intro e he
    exact hexport fun hbinds => by rw [hbinds.2.2] at he; cases he
  · intro e he
    exact hexport fun hbinds => by rw [hbinds.2.1] at he; cases he
  · intro e he
    exact hexport fun hbinds => by rw [hbinds.1] at he; cases he

/-- A socket that is bound and open is left behind. -/
theorem not_clean_of_open {t : Held} (hbound : t.bound = true) (hopen : t.socketClosed = false) :
    ¬ t.Clean := by
  intro hclean
  have hclosed := (clean_iff.mp hclean).2.1 hbound
  rw [hopen] at hclosed
  cases hclosed

/-- The buffer has been registered, if it has to be, and nothing else is held. -/
structure Acquired (x : Exchange) (p2pUpdate : Bool) (tensor : Tensor) (store : Option P2PStore)
    (h : Held) : Prop where
  unbound : h.bound = false
  opened : h.socketClosed = false
  unstarted : h.threadStarted = false
  broadcast : p2pUpdate = false → h.p2pStore = store
  p2p : p2pUpdate = true → x.engine.registers [tensor.ptr] = true ∧
    ipcEntry h.p2pStore = some tensor

section Acquired

variable {p2pUpdate : Bool} {tensor : Tensor} {store : Option P2PStore}

/-- Behind the binding and the start, what the `finally` leaves decides. -/
theorem Acquired.clean_iff_of_binds (h' : Acquired x p2pUpdate tensor store h) (hbinds : Binds x)
    (hstarts : Starts x) {t : Held}
    (ht : t.Clean ↔ x.raises .closingBarrier = none ∧
      (p2pUpdate = false → ipcEntry h.p2pStore = none) ∧
      (p2pUpdate = true → x.engine.unregisters [tensor.ptr] = true)) :
    t.Clean ↔ CleansUp x p2pUpdate tensor store := by
  rw [ht]
  constructor
  · intro ⟨hbarrier, hnone, hreleased⟩
    exact ⟨fun hfalse => h'.broadcast hfalse ▸ hnone hfalse, fun _ => ⟨hstarts, hbarrier⟩,
      fun htrue => ⟨hbinds, (h'.p2p htrue).1, hreleased htrue⟩⟩
  · intro ⟨hnone, hbarrier, hreleased⟩
    exact ⟨(hbarrier hbinds).2, fun hfalse => (h'.broadcast hfalse).symm ▸ hnone hfalse,
      fun htrue => (hreleased htrue).2.2⟩

/-- Without a binding neither socket nor thread is there yet. -/
theorem Acquired.clean_iff_of_not_binds (h' : Acquired x p2pUpdate tensor store h)
    (hbinds : ¬ Binds x) : h.Clean ↔ CleansUp x p2pUpdate tensor store := by
  have hclean : h.Clean ↔ ipcEntry h.p2pStore = none := by
    rw [clean_iff, h'.unbound, h'.unstarted]
    simp
  rw [hclean]
  cases p2pUpdate with
  | false =>
      rw [h'.broadcast rfl]
      exact ⟨fun hnone => ⟨fun _ => hnone, fun h => absurd h hbinds, nofun⟩,
        fun hcleans => hcleans.1 rfl⟩
  | true =>
      rw [(h'.p2p rfl).2]
      exact iff_of_false nofun fun hcleans => hbinds (hcleans.2.2 rfl).1

/-- From the state in which the buffer has been registered. -/
theorem Acquired.exchange_clean_iff (h' : Acquired x p2pUpdate tensor store h)
    {disableH2dBuffer : Bool} {buckets : List Planned} :
    wp (exportAndBind x)
      (fun _ => Keeps (tryFinally (exchangeBuckets x p2pUpdate disableH2dBuffer buckets)
        (release x p2pUpdate)) fun t => t.Clean ↔ CleansUp x p2pUpdate tensor store)
      (fun _ t => t.Clean ↔ CleansUp x p2pUpdate tensor store) h := by
  apply wp_mono (wp_exportAndBind (E := fun t => t.Clean ↔ CleansUp x p2pUpdate tensor store)
    h'.opened h'.clean_iff_of_not_binds _)
  · rintro _ _ ⟨hbinds, hstarts, rfl⟩
    apply wp_mono (tryFinally_clean_iff (h := { h with bound := true, threadStarted := true })
      tensor rfl h'.opened fun htrue => (h'.p2p htrue).2)
    · exact fun _ t ht => h'.clean_iff_of_binds hbinds hstarts ht
    · exact fun _ t ht => h'.clean_iff_of_binds hbinds hstarts ht
  · exact fun _ _ h => h
  · intro hbinds hstarts t ht hclosed
    refine iff_of_false (not_clean_of_open ht hclosed) fun hcleans => ?_
    exact hstarts (hcleans.2.1 hbinds).1

end Acquired

/-- What is left behind from the acquisitions on. -/
theorem acquireAndExchange_clean_iff {p2pUpdate disableH2dBuffer : Bool} {buckets : List Planned}
    {store : Option P2PStore} (hstore : p2pUpdate = true → store.isSome = true) :
    Keeps (do
        acquire x p2pUpdate disableH2dBuffer
        tryFinally (exchangeBuckets x p2pUpdate disableH2dBuffer buckets) (release x p2pUpdate))
      (fun t => t.Clean ↔
        CleansUp x p2pUpdate (if disableH2dBuffer then x.buffer else x.h2dBuffer) store)
      (.start store) := by
  rw [Keeps, wp_bind, acquire, wp_ite]
  refine ⟨fun htrue => ?_, fun hfalse => ?_⟩
  · obtain ⟨store, rfl⟩ := Option.isSome_iff_exists.mp (hstore htrue)
    rw [wp_bind]
    apply wp_mono (wp_registerIpcBuffer rfl)
    · rintro _ t ⟨hregisters, hentry, ht⟩
      rw [ht]
      apply Acquired.exchange_clean_iff
      exact ⟨rfl, rfl, rfl, fun hfalse => (by rw [htrue] at hfalse; cases hfalse),
        fun _ => ⟨hregisters, hentry⟩⟩
    · rintro e t ⟨hrefused, hentry⟩
      refine iff_of_false (fun hclean => ?_) fun hcleans => hrefused (hcleans.2.2 htrue).2.1
      have hnone := (clean_iff.mp hclean).1
      rw [hentry] at hnone
      cases hnone
  · apply Acquired.exchange_clean_iff
    exact ⟨rfl, rfl, rfl, fun _ => rfl, fun htrue => absurd htrue hfalse⟩

/-! ## The whole call -/

/-- The assertions hold, and the rank takes part in the update. -/
structure TakesPart (x : Exchange) (store : Option P2PStore) : Prop where
  metas : x.metasEmpty = false
  initialized : x.initialized = true
  supportsDeviceIpc : x.supportsDeviceIpc = true
  p2p : x.ranks ≠ [] → x.supportsDeviceP2p = true ∧ store.isSome = true ∧ x.rank ∈ x.ranks ∧
    x.raises .firstBarrier = none

/-- The buckets are planned and the buffers allocated. -/
structure Plans (x : Exchange) : Prop where
  planned : ∃ disableH2dBuffer buckets, x.disableH2dBuffer = .ok disableH2dBuffer ∧
    x.buckets = .ok buckets ∧ (disableH2dBuffer = false → x.raises .allocateH2d = none)
  buffer : x.raises .allocateBuffer = none

theorem wp_chooseMode :
    wp (chooseMode x)
      (fun mode t => t = h ∧ (TakesPart x h.p2pStore ∧ mode = some (decide (x.ranks ≠ [])) ∨
        ¬ TakesPart x h.p2pStore ∧ mode = none))
      (fun _ t => t = h ∧ ¬ TakesPart x h.p2pStore) h := by
  simp only [chooseMode, wp_bind, wp_require]
  refine ⟨fun hmetas => ⟨fun hinit => ⟨fun hipc => ?_, fun hnot => ⟨trivial, fun ht => hnot ht.3⟩⟩,
    fun hnot => ⟨trivial, fun ht => hnot ht.2⟩⟩, fun hnot => ⟨trivial, fun ht => hnot ht.1⟩⟩
  rw [wp_ite]
  refine ⟨fun hranks => ⟨rfl, .inl ⟨⟨hmetas, hinit, hipc, absurd hranks⟩, ?_⟩⟩, fun hranks => ?_⟩
  · simp [hranks]
  · simp only [wp_bind, wp_require, wp_get, wp_ite, wp_attempt, wp_pure]
    refine ⟨fun hp2p => ⟨fun hstore => ⟨fun hrank => ⟨fun hbarrier => ?_, ?_⟩, fun hrank => ?_⟩,
      fun hnot => ?_⟩, fun hnot => ?_⟩
    · exact ⟨trivial, .inl ⟨⟨hmetas, hinit, hipc, fun _ => ⟨hp2p, hstore, hrank, hbarrier⟩⟩,
        by simp [hranks]⟩⟩
    · intro e he
      refine ⟨trivial, fun ht => ?_⟩
      rw [(ht.p2p hranks).2.2.2] at he
      cases he
    · exact ⟨trivial, .inr ⟨fun ht => hrank (ht.p2p hranks).2.2.1, trivial⟩⟩
    · exact ⟨trivial, fun ht => hnot (ht.p2p hranks).2.1⟩
    · exact ⟨trivial, fun ht => hnot (ht.p2p hranks).1⟩

theorem wp_ofExcept {α : Type} {a : Except PyError α} {Q : α → Held → Prop}
    {E : PyError → Held → Prop} :
    wp (ofExcept a) Q E h ↔ (∀ v, a = .ok v → Q v h) ∧ (∀ e, a = .error e → E e h) := by
  cases a <;> simp [ofExcept]

theorem wp_plan :
    wp (plan x)
      (fun planned t => t = h ∧ Plans x ∧ x.disableH2dBuffer = .ok planned.1)
      (fun _ t => t = h ∧ ¬ Plans x) h := by
  simp only [plan, wp_bind, wp_ofExcept]
  refine ⟨fun disable hdisable => ⟨fun buckets hbuckets => ?_, fun e he => ?_⟩, fun e he => ?_⟩
  · have hlast : (disable = false → x.raises .allocateH2d = none) →
        wp (do attempt (x.raises .allocateBuffer); pure (disable, buckets))
          (fun planned t => t = h ∧ Plans x ∧ x.disableH2dBuffer = .ok planned.1)
          (fun _ t => t = h ∧ ¬ Plans x) h := by
      intro hh2d
      rw [wp_bind, wp_attempt]
      refine ⟨fun hbuffer => ⟨rfl, ⟨⟨_, _, hdisable, hbuckets, hh2d⟩, hbuffer⟩, hdisable⟩, ?_⟩
      intro e he
      refine ⟨rfl, fun hplans => ?_⟩
      rw [hplans.buffer] at he
      cases he
    rw [wp_ite]
    refine ⟨fun hfalse => ?_, fun htrue => ?_⟩
    · rw [wp_bind, wp_attempt]
      refine ⟨fun hh2d => hlast fun _ => hh2d, fun e he => ⟨rfl, fun hplans => ?_⟩⟩
      obtain ⟨disable', _, hdisable', _, hh2d⟩ := hplans.planned
      rw [hdisable] at hdisable'
      obtain rfl := Except.ok.inj hdisable'
      rw [hh2d hfalse] at he
      cases he
    · exact hlast fun hfalse => absurd hfalse htrue
  · refine ⟨trivial, fun hplans => ?_⟩
    obtain ⟨_, _, _, hbuckets, _⟩ := hplans.planned
    rw [hbuckets] at he
    cases he
  · refine ⟨trivial, fun hplans => ?_⟩
    obtain ⟨_, _, hdisable, _⟩ := hplans.planned
    rw [hdisable] at he
    cases he

/-- Nothing is left behind by a call on `store`.  Where the call ends before its
acquisitions, no buffer may be in the store already; otherwise it has to clean up, with the
h2d buffer as the IPC buffer unless there is none. -/
structure LeavesNothing (x : Exchange) (store : Option P2PStore) : Prop where
  before : ¬ (TakesPart x store ∧ Plans x) → ipcEntry store = none
  from_acquire : TakesPart x store → Plans x → ∀ disableH2dBuffer,
    x.disableH2dBuffer = .ok disableH2dBuffer →
      CleansUp x (decide (x.ranks ≠ [])) (if disableH2dBuffer then x.buffer else x.h2dBuffer) store

theorem clean_start {store : Option P2PStore} :
    (Held.start store).Clean ↔ ipcEntry store = none := by
  rw [clean_iff]
  simp [Held.start]

/-- When a call of `_update_per_bucket` exits, exactly under `LeavesNothing` the store holds
no IPC buffer, the bound socket is closed and the started thread joined. -/
theorem updatePerBucket_clean_iff (x : Exchange) (store : Option P2PStore) :
    (after (updatePerBucket x) (.start store)).Clean ↔ LeavesNothing x store := by
  -- a call that ends before its acquisitions leaves the store as it was
  have hbefore : ¬ (TakesPart x store ∧ Plans x) →
      ((Held.start store).Clean ↔ LeavesNothing x store) := by
    intro hnot
    rw [clean_start]
    exact ⟨fun hnone => ⟨fun _ => hnone, fun htakes hplans => absurd ⟨htakes, hplans⟩ hnot⟩,
      fun hleaves => hleaves.before hnot⟩
  apply (keeps_iff (I := fun t : Held => t.Clean ↔ LeavesNothing x store)).mp
  rw [updatePerBucket, Keeps, wp_bind]
  apply wp_mono wp_chooseMode
  · rintro _ _ ⟨rfl, ⟨htakes, rfl⟩ | ⟨hnot, rfl⟩⟩
    · rw [wp_bind]
      apply wp_mono wp_plan
      · rintro ⟨disable, buckets⟩ _ ⟨rfl, hplans, hdisable⟩
        have hstore : decide (x.ranks ≠ []) = true → store.isSome = true :=
          fun hranks => (htakes.p2p (of_decide_eq_true hranks)).2.1
        have hcleans : LeavesNothing x store ↔ CleansUp x (decide (x.ranks ≠ []))
            (if disable then x.buffer else x.h2dBuffer) store := by
          constructor
          · intro hleaves
            exact hleaves.from_acquire htakes hplans disable hdisable
          · intro hcleans
            refine ⟨fun hnot => absurd ⟨htakes, hplans⟩ hnot, fun _ _ disable' hdisable' => ?_⟩
            rw [hdisable] at hdisable'
            obtain rfl := Except.ok.inj hdisable'
            exact hcleans
        rw [hcleans]
        exact acquireAndExchange_clean_iff hstore
      · rintro _ _ ⟨rfl, hnot⟩
        exact hbefore fun hboth => hnot hboth.2
    · exact hbefore fun hboth => hnot hboth.1
  · rintro _ _ ⟨rfl, hnot⟩
    exact hbefore fun hboth => hnot hboth.1

/-! ## What a failure leaves behind -/

/-- Rank 0 sends one bucket of 4096 bytes to itself, and nothing raises. -/
def quietExchange (ranks : List Rank) : Exchange where
  rank := 0
  ranks
  metasEmpty := false
  initialized := true
  supportsDeviceIpc := true
  supportsDeviceP2p := true
  disableH2dBuffer := .ok true
  buckets := .ok [(0, 0, ⟨4096, [⟨0, 0, 4096⟩], [⟨"w", .uint8, [4000], 4096⟩]⟩)]
  buffer := ⟨0x7000, 8192⟩
  h2dBuffer := ⟨0x5000, 4096⟩
  engine := ⟨⟨fun _ => .ok [], fun _ => .error (.keyError ""), id, fun _ => none⟩, false,
    fun _ => true, fun _ => true, fun _ => none⟩
  raises _ := none
  replyIsError _ := false
  othersFailed _ := 0

/-- An update that is quiet but for one site. -/
def failingExchange (ranks : List Rank) (site : Site) : Exchange :=
  { quietExchange ranks with
    raises := fun s => if s = site then some (.runtimeError "failure") else none }

/-- A P2P update whose handle cannot be exported leaves the IPC buffer in the store, and a
broadcast whose closing barrier raises leaves the socket open. -/
theorem failingExchange_leaves :
    (after (updatePerBucket (failingExchange [0] .export))
        (.start (some ⟨fun _ => none, []⟩))).p2pStore.map
          (fun store => (store.namedTensors "__ipc_buffer__", store.registered)) =
        some (some ⟨0x7000, 8192⟩, [0x7000]) ∧
      ¬ (after (updatePerBucket (failingExchange [0] .export))
        (.start (some ⟨fun _ => none, []⟩))).Clean ∧
      (after (updatePerBucket (failingExchange [] .closingBarrier)) (.start none)).bound = true ∧
      ¬ (after (updatePerBucket (failingExchange [] .closingBarrier)) (.start none)).Clean := by
  refine ⟨rfl, fun hclean => ?_, rfl, fun hclean => ?_⟩
  · have hnone := hclean.store _ rfl
    revert hnone
    decide
  · have hclosed := hclean.socket rfl
    revert hclosed
    decide

end CheckpointEngine.Update
