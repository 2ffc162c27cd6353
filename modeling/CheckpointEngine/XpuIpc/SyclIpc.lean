/-
  `XpuIpc.SyclIpc`: the exporter handles of `xpu_ipc/sycl_ipc.cpp`, any number of threads.

  `ipc::get` and the `ipc::put` of a release happen outside the lock, what a call does to
  `g_handles` inside it.  Each handle is in one place: with the thread whose call holds it,
  in `g_handles`, or put.
-/
import Mathlib.Data.Sum.Basic
import CheckpointEngine.Foundation.Machine
import CheckpointEngine.Foundation.Custody

set_option autoImplicit false

namespace CheckpointEngine.XpuIpc

open CheckpointEngine.Foundation

/-- A handle, by the number of the `ipc::get` that returned it. -/
abbrev Handle := Nat

/-- How far a thread's call has come. -/
inductive Control where
  | idle
  /-- In `ipc_get_handle(ptr)`, before `ipc::get`. -/
  | getting (ptr : UInt64)
  /-- In `ipc_get_handle(ptr)`, before the lock. -/
  | registering (ptr : UInt64) (h : Handle) (data : List UInt8)
  /-- In `ipc_release_handle(ptr)`, before the lock. -/
  | releasing (ptr : UInt64)
  /-- In `ipc_release_handle(ptr)`, before `ipc::put`. -/
  | putting (h : Handle)
  deriving DecidableEq

/-- The handle that a call holds in a local variable. -/
def Control.handle : Control → Option Handle
  | .registering _ h _ | .putting h => some h
  | .idle | .getting _ | .releasing _ => none

structure State (Thread : Type) where
  gHandles : UInt64 → Option Handle
  /-- The pointers given to `ipc::get`, in the order of the calls. -/
  gets : List UInt64
  /-- The handles given to `ipc::put`, in the order of the calls. -/
  puts : List Handle
  control : Thread → Control
  /-- What the last call of each thread returned. -/
  result : Thread → Option (List UInt8)

/-- What a thread does next: it calls one of the two functions, or goes on with the
call it is in. -/
inductive Action where
  | ipcGetHandle (ptr : UInt64)
  | ipcReleaseHandle (ptr : UInt64)
  | proceed
  deriving DecidableEq

section Steps

variable {Thread : Type} [DecidableEq Thread] (data : Handle → List UInt8)

/-- `ipc::get`; `data` gives the blob of each handle. -/
def State.get (s : State Thread) (thread : Thread) (ptr : UInt64) : State Thread :=
  { s with
    gets := s.gets ++ [ptr]
    control := Function.update s.control thread
      (.registering ptr s.gets.length (data s.gets.length)) }

/-- The critical section of `ipc_get_handle`, and its return. -/
def State.register (s : State Thread) (thread : Thread) (ptr : UInt64) (h : Handle)
    (blob : List UInt8) : State Thread :=
  { s with
    puts := match s.gHandles ptr with
      | some stale => s.puts ++ [stale]
      | none => s.puts
    gHandles := Function.update s.gHandles ptr (some h)
    control := Function.update s.control thread .idle
    result := Function.update s.result thread (some blob) }

/-- A call of `ipc_release_handle` returns. -/
def State.returnVoid (s : State Thread) (thread : Thread) : State Thread :=
  { s with
    control := Function.update s.control thread .idle
    result := Function.update s.result thread none }

/-- The critical section of `ipc_release_handle`. -/
def State.erase (s : State Thread) (thread : Thread) (ptr : UInt64) : State Thread :=
  match s.gHandles ptr with
  | none => s.returnVoid thread
  | some h =>
      { s with
        gHandles := Function.update s.gHandles ptr none
        control := Function.update s.control thread (.putting h) }

/-- The `ipc::put` of `ipc_release_handle`, and its return. -/
def State.put (s : State Thread) (thread : Thread) (h : Handle) : State Thread :=
  { s with puts := s.puts ++ [h] }.returnVoid thread

def step (s : State Thread) (agent : Thread × Action) : Option (State Thread) :=
  match s.control agent.1, agent.2 with
  | .idle, .ipcGetHandle ptr =>
      some { s with control := Function.update s.control agent.1 (.getting ptr) }
  | .idle, .ipcReleaseHandle ptr =>
      some { s with control := Function.update s.control agent.1 (.releasing ptr) }
  | .getting ptr, .proceed => some (s.get data agent.1 ptr)
  | .registering ptr h blob, .proceed => some (s.register agent.1 ptr h blob)
  | .releasing ptr, .proceed => some (s.erase agent.1 ptr)
  | .putting h, .proceed => some (s.put agent.1 h)
  | _, _ => none

variable (Thread) in
def machine : Machine (State Thread) (Thread × Action) where
  init := ⟨fun _ => none, [], [], fun _ => .idle, fun _ => none⟩
  step := step data

end Steps

/-! ## Where a handle is -/

section Custody

variable {Thread : Type} [DecidableEq Thread]

/-- The handles that the threads' calls hold and that `g_handles` stores, and those put. -/
def State.custody (s : State Thread) : Custody (Thread ⊕ UInt64) Handle where
  content := Sum.elim (fun thread => (s.control thread).handle) s.gHandles
  finished := s.puts

variable {s : State Thread} {thread : Thread}

theorem handle_update (c : Control) :
    (fun other => (Function.update s.control thread c other).handle) =
      Function.update (fun other => (s.control other).handle) thread c.handle :=
  Function.comp_update Control.handle s.control thread c

/-- A step that leaves the handle of its thread alone moves none. -/
theorem custody_setControl {c : Control} (result : Thread → Option (List UInt8))
    (h : c.handle = (s.control thread).handle) :
    State.custody { s with control := Function.update s.control thread c, result := result } =
      s.custody := by
  simp only [State.custody, handle_update, h, Function.update_eq_self]

theorem custody_get (data : Handle → List UInt8) (ptr : UInt64) :
    (s.get data thread ptr).custody = s.custody.obtain (.inl thread) s.gets.length := by
  simp only [State.custody, State.get, handle_update, Custody.obtain, Sum.update_elim_inl]
  rfl

theorem custody_erase {ptr : UInt64} {h : Handle} (hentry : s.gHandles ptr = some h) :
    (s.erase thread ptr).custody = s.custody.hand (.inr ptr) (.inl thread) h := by
  simp only [State.custody, State.erase, hentry, handle_update, Custody.hand,
    Sum.update_elim_inl, Sum.update_elim_inr]
  rfl

theorem custody_put (h : Handle) :
    (s.put thread h).custody = s.custody.finish (.inl thread) h := by
  simp only [State.custody, State.put, State.returnVoid, handle_update, Custody.finish,
    Sum.update_elim_inl]
  rfl

/-- Without an entry for the pointer the new handle is stored. -/
theorem custody_register_none {ptr : UInt64} {h : Handle} {blob : List UInt8}
    (hentry : s.gHandles ptr = none) :
    (s.register thread ptr h blob).custody = s.custody.hand (.inl thread) (.inr ptr) h := by
  simp only [State.custody, State.register, hentry, handle_update, Custody.hand,
    Sum.update_elim_inl, Sum.update_elim_inr]
  rfl

/-- An entry for the pointer is put and then replaced. -/
theorem custody_register_some {ptr : UInt64} {h stale : Handle} {blob : List UInt8}
    (hentry : s.gHandles ptr = some stale) :
    (s.register thread ptr h blob).custody =
      (s.custody.finish (.inr ptr) stale).hand (.inl thread) (.inr ptr) h := by
  simp only [State.custody, State.register, hentry, handle_update, Custody.finish,
    Custody.hand, Sum.update_elim_inl, Sum.update_elim_inr, Function.update_idem]
  rfl

/-- Every handle obtained is in one place, and a handle is registered or stored under the
pointer it was obtained for. -/
structure Accounted (s : State Thread) : Prop where
  sound : s.custody.Sound (· < s.gets.length)
  registering : ∀ {thread ptr h blob},
    s.control thread = .registering ptr h blob → s.gets[h]? = some ptr
  stored : ∀ {ptr h}, s.gHandles ptr = some h → s.gets[h]? = some ptr

theorem accounted_init (data : Handle → List UInt8) :
    Accounted (machine Thread data).init where
  sound := by
    have hempty : (machine Thread data).init.custody =
        (⟨fun _ => none, []⟩ : Custody (Thread ⊕ UInt64) Handle) := by
      refine congrArg (Custody.mk · []) (funext fun slot => ?_)
      cases slot <;> rfl
    rw [hempty]
    simpa [machine] using @Custody.Sound.init (Thread ⊕ UInt64) Handle
  registering h := nomatch h
  stored h := nomatch h

/-- The pointer of a registering thread is found again after a step of `thread` into no
such call. -/
theorem registering_update {c : Control} (hafter : ∀ ptr h blob, c ≠ .registering ptr h blob)
    {other : Thread} {ptr : UInt64} {h : Handle} {blob : List UInt8}
    (hcontrol : Function.update s.control thread c other = .registering ptr h blob) :
    s.control other = .registering ptr h blob := by
  cases decEq other thread with
  | isTrue heq =>
      rw [heq, Function.update_self] at hcontrol
      exact absurd hcontrol (hafter ptr h blob)
  | isFalse hne => rwa [Function.update_of_ne hne] at hcontrol

theorem ne_registering {c : Control} (hc : c.handle = none) (ptr : UInt64) (h : Handle)
    (blob : List UInt8) : c ≠ .registering ptr h blob := by
  intro heq
  rw [heq] at hc
  cases hc

/-- A call that starts, or returns holding nothing. -/
theorem Accounted.setControl {c : Control} (result : Thread → Option (List UInt8))
    (hs : Accounted s) (hbefore : (s.control thread).handle = none) (hafter : c.handle = none) :
    Accounted { s with control := Function.update s.control thread c, result := result } where
  sound := by
    rw [custody_setControl result (hafter.trans hbefore.symm)]
    exact hs.sound
  registering h := hs.registering (registering_update (ne_registering hafter) h)
  stored := hs.stored

theorem Accounted.get (data : Handle → List UInt8) (ptr : UInt64) (hs : Accounted s)
    (hbefore : (s.control thread).handle = none) : Accounted (s.get data thread ptr) := by
  have hkeep : ∀ {h : Handle} {p : UInt64}, s.gets[h]? = some p →
      (s.gets ++ [ptr])[h]? = some p := by
    intro h p hget
    obtain ⟨hlt, -⟩ := List.getElem?_eq_some_iff.mp hget
    rw [List.getElem?_append_left hlt, hget]
  refine ⟨?_, ?_, fun hstored => hkeep (hs.stored hstored)⟩
  · rw [custody_get]
    have hknown : ∀ h, h < (s.get data thread ptr).gets.length ↔
        h < s.gets.length ∨ h = s.gets.length := by
      intro h
      rw [State.get, List.length_append, List.length_singleton, Nat.lt_succ_iff_lt_or_eq]
    have hempty : s.custody.content (.inl thread) = none := hbefore
    simpa only [hknown] using hs.sound.obtain hempty (Nat.lt_irrefl _)
  · intro other p h blob hcontrol
    change Function.update s.control thread _ other = _ at hcontrol
    cases decEq other thread with
    | isTrue heq =>
        rw [heq, Function.update_self] at hcontrol
        cases hcontrol
        exact List.getElem?_concat_length
    | isFalse hne =>
        rw [Function.update_of_ne hne] at hcontrol
        exact hkeep (hs.registering hcontrol)

theorem Accounted.register {ptr : UInt64} {h : Handle} {blob : List UInt8} (hs : Accounted s)
    (hcontrol : s.control thread = .registering ptr h blob) :
    Accounted (s.register thread ptr h blob) := by
  have hholds : s.custody.content (.inl thread) = some h := congrArg Control.handle hcontrol
  refine ⟨?_, ?_, ?_⟩
  · cases hentry : s.gHandles ptr with
    | none =>
        rw [custody_register_none hentry]
        exact hs.sound.hand hholds hentry
    | some stale =>
        rw [custody_register_some hentry]
        have hstored : s.custody.content (.inr ptr) = some stale := hentry
        have hne : (.inl thread : Thread ⊕ UInt64) ≠ .inr ptr := Sum.inl_ne_inr
        refine (hs.sound.finish hstored).hand ?_ (Function.update_self ..)
        exact Custody.update_none_eq_some.mpr ⟨hne, hholds⟩
  · intro other q x _ hr
    exact hs.registering (registering_update (c := .idle) (ne_registering rfl) hr)
  · intro q x hstored
    change Function.update s.gHandles ptr (some h) q = some x at hstored
    cases decEq q ptr with
    | isTrue heq =>
        rw [heq, Function.update_self] at hstored
        cases hstored
        rw [heq]
        exact hs.registering hcontrol
    | isFalse hne =>
        rw [Function.update_of_ne hne] at hstored
        exact hs.stored hstored

theorem Accounted.erase (ptr : UInt64) (hs : Accounted s)
    (hbefore : (s.control thread).handle = none) : Accounted (s.erase thread ptr) := by
  cases hentry : s.gHandles ptr with
  | none =>
      rw [State.erase, hentry]
      exact hs.setControl _ hbefore rfl
  | some h =>
      refine ⟨?_, ?_, ?_⟩
      · rw [custody_erase hentry, State.erase, hentry]
        have hstored : s.custody.content (.inr ptr) = some h := hentry
        exact hs.sound.hand hstored hbefore
      · rw [State.erase, hentry]
        intro other p x blob hr
        exact hs.registering
          (registering_update (c := .putting h) (fun _ _ _ heq => nomatch heq) hr)
      · rw [State.erase, hentry]
        intro q x hstored
        exact hs.stored (Custody.update_none_eq_some.mp hstored).2

theorem Accounted.put {h : Handle} (hs : Accounted s)
    (hcontrol : s.control thread = .putting h) : Accounted (s.put thread h) where
  sound := by
    rw [custody_put]
    exact hs.sound.finish (congrArg Control.handle hcontrol)
  registering hr := hs.registering (registering_update (c := .idle) (ne_registering rfl) hr)
  stored := hs.stored

/-! ## Every interleaving -/

/-- A step of a thread starts a call or takes the one it is in to its next point. -/
theorem step_cases {data : Handle → List UInt8} {t : State Thread} {agent : Thread × Action}
    (h : step data s agent = some t) :
    (s.control agent.1 = .idle ∧ ∃ c, c.handle = none ∧
      t = { s with control := Function.update s.control agent.1 c }) ∨
    (∃ ptr, s.control agent.1 = .getting ptr ∧ t = s.get data agent.1 ptr) ∨
    (∃ ptr x blob, s.control agent.1 = .registering ptr x blob ∧
      t = s.register agent.1 ptr x blob) ∨
    (∃ ptr, s.control agent.1 = .releasing ptr ∧ t = s.erase agent.1 ptr) ∨
    ∃ x, s.control agent.1 = .putting x ∧ t = s.put agent.1 x := by
  obtain ⟨thread, action⟩ := agent
  cases hcontrol : s.control thread with
  | idle =>
      cases action with
      | ipcGetHandle ptr =>
          rw [step, hcontrol, Option.some.injEq] at h
          exact Or.inl ⟨rfl, .getting ptr, rfl, h.symm⟩
      | ipcReleaseHandle ptr =>
          rw [step, hcontrol, Option.some.injEq] at h
          exact Or.inl ⟨rfl, .releasing ptr, rfl, h.symm⟩
      | proceed => simp [step, hcontrol] at h
  | getting ptr =>
      cases action with
      | proceed =>
          rw [step, hcontrol, Option.some.injEq] at h
          exact Or.inr (Or.inl ⟨ptr, rfl, h.symm⟩)
      | _ => simp [step, hcontrol] at h
  | registering ptr x blob =>
      cases action with
      | proceed =>
          rw [step, hcontrol, Option.some.injEq] at h
          exact Or.inr (Or.inr (Or.inl ⟨ptr, x, blob, rfl, h.symm⟩))
      | _ => simp [step, hcontrol] at h
  | releasing ptr =>
      cases action with
      | proceed =>
          rw [step, hcontrol, Option.some.injEq] at h
          exact Or.inr (Or.inr (Or.inr (Or.inl ⟨ptr, rfl, h.symm⟩)))
      | _ => simp [step, hcontrol] at h
  | putting x =>
      cases action with
      | proceed =>
          rw [step, hcontrol, Option.some.injEq] at h
          exact Or.inr (Or.inr (Or.inr (Or.inr ⟨x, rfl, h.symm⟩)))
      | _ => simp [step, hcontrol] at h

theorem accounted_step {data : Handle → List UInt8} {t : State Thread} {agent : Thread × Action}
    (hs : Accounted s) (h : step data s agent = some t) : Accounted t := by
  obtain ⟨hidle, c, hc, rfl⟩ | ⟨ptr, hat, rfl⟩ | ⟨ptr, x, blob, hat, rfl⟩ | ⟨ptr, hat, rfl⟩ |
    ⟨x, hat, rfl⟩ := step_cases h
  · exact hs.setControl _ (congrArg Control.handle hidle) hc
  · exact hs.get data ptr (congrArg Control.handle hat)
  · exact hs.register hat
  · exact hs.erase ptr (congrArg Control.handle hat)
  · exact hs.put hat

theorem accounted_reachable {data : Handle → List UInt8}
    (h : (machine Thread data).Reachable s) : Accounted s :=
  h.invariant (accounted_init data) fun _ _ _ _ hs hstep => accounted_step hs hstep

/-- In every interleaving a handle is put at most once and not while it is stored; once
all calls have returned, each handle obtained is stored under its pointer or put. -/
theorem handles_put_once {data : Handle → List UInt8}
    (h : (machine Thread data).Reachable s) :
    (∀ x, s.puts.count x ≤ 1) ∧
      (∀ ptr x, s.gHandles ptr = some x → x ∉ s.puts) ∧
      ((∀ thread, s.control thread = .idle) → ∀ x ptr, s.gets[x]? = some ptr →
        (s.gHandles ptr = some x ∧ s.puts.count x = 0) ∨
          ((∀ q, s.gHandles q ≠ some x) ∧ s.puts.count x = 1)) := by
  have hs := accounted_reachable h
  have hstored : ∀ ptr x, s.gHandles ptr = some x → x ∉ s.puts :=
    fun ptr x hx => hs.sound.unfinished (a := .inr ptr) hx
  refine ⟨List.nodup_iff_count_le_one.mp hs.sound.nodup, hstored, ?_⟩
  intro hidle x ptr hget
  obtain ⟨hlt, -⟩ := List.getElem?_eq_some_iff.mp hget
  obtain ⟨slot, hslot⟩ | hput := (hs.sound.known x).mp hlt
  · cases slot with
    | inl thread =>
        have hnone : s.custody.content (.inl thread) = none :=
          congrArg Control.handle (hidle thread)
        rw [hnone] at hslot
        cases hslot
    | inr q =>
        have hq : s.gHandles q = some x := hslot
        have hptr : q = ptr := Option.some.inj ((hs.stored hq).symm.trans hget)
        subst hptr
        exact Or.inl ⟨hq, List.count_eq_zero.mpr (hstored q x hq)⟩
  · refine Or.inr ⟨fun q hq => hstored q x hq hput, ?_⟩
    exact List.count_eq_one_of_mem hs.sound.nodup hput

/-- A pointer is exported again while the handle of its first export waits for its put. -/
theorem handles_put_once_reused : ∃ s : State (Fin 2), s.gets = [4096, 4096] ∧ s.puts = [0] ∧
    (∀ x, s.puts.count x ≤ 1) ∧
      (∀ ptr x, s.gHandles ptr = some x → x ∉ s.puts) ∧
      ((∀ thread, s.control thread = .idle) → ∀ x ptr, s.gets[x]? = some ptr →
        (s.gHandles ptr = some x ∧ s.puts.count x = 0) ∨
          ((∀ q, s.gHandles q ≠ some x) ∧ s.puts.count x = 1)) := by
  obtain ⟨s, hreach, hgets, hputs⟩ := Machine.Reachable.of_run
    (M := machine (Fin 2) fun _ => [])
    (P := fun s => s.gets = [4096, 4096] ∧ s.puts = [0])
    [(0, .ipcGetHandle 4096), (0, .proceed), (0, .proceed), (0, .ipcReleaseHandle 4096),
      (0, .proceed), (1, .ipcGetHandle 4096), (1, .proceed), (1, .proceed), (0, .proceed)]
    (by decide)
  exact ⟨s, hgets, hputs, handles_put_once hreach⟩

end Custody

end CheckpointEngine.XpuIpc
