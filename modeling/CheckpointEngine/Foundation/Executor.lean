/-
  `Foundation.Executor`: `list(executor.map(fn, items))` on a pool of worker threads.

  All items are submitted at once and are taken up in their order, by at most so many
  threads at a time; the tasks share a state, and their steps interleave.  The caller
  takes the results in order.  At the first error it cancels what has not been taken up,
  the last item first, waits for the rest and raises.
-/
import CheckpointEngine.Foundation.Machine
import Mathlib.Logic.Function.Basic
import Mathlib.Data.List.Basic

set_option autoImplicit false

namespace CheckpointEngine.Foundation

/-- What a step of a task leads to. -/
inductive Progress (σ τ ρ ε : Type) where
  | going (phase : τ) (shared : σ)
  | ended (result : Except ε ρ) (shared : σ)

/-- The calls of one function on numbered items.  They share a `σ`, and each has a phase. -/
structure Tasks (σ τ ρ ε : Type) where
  count : Nat
  workers : Nat
  workers_pos : 0 < workers
  shared : σ
  start : Nat → τ
  step : Nat → σ → τ → Progress σ τ ρ ε

inductive Future (τ ρ ε : Type) where
  | pending
  | running (phase : τ)
  | finished (result : Except ε ρ)
  | cancelled

/-- What the caller does. -/
inductive Caller (ρ ε : Type) where
  | collecting (results : List ρ)
  /-- the futures below a number are still to be cancelled -/
  | cancelling (error : ε) (below : Nat)
  | waiting (error : ε)
  | returned (results : List ρ)
  | raised (error : ε)

def Caller.isRaised {ρ ε : Type} : Caller ρ ε → Bool
  | .raised _ => true
  | _ => false

structure PoolState (σ τ ρ ε : Type) where
  shared : σ
  futures : Nat → Future τ ρ ε
  caller : Caller ρ ε

inductive Thread where
  | worker (item : Nat)
  | caller
  deriving DecidableEq, Repr

variable {σ τ ρ ε : Type}

def Future.isPending : Future τ ρ ε → Bool
  | .pending => true
  | _ => false

def Future.isRunning : Future τ ρ ε → Bool
  | .running _ => true
  | _ => false

/-- The future at an item once it is taken up no more. -/
def Future.cancel : Future τ ρ ε → Future τ ρ ε
  | .pending => .cancelled
  | future => future

theorem Future.cancel_of_ne {future : Future τ ρ ε} (h : future ≠ .pending) :
    future.cancel = future := by
  cases future with
  | pending => exact absurd rfl h
  | running | finished | cancelled => rfl

namespace Tasks

variable (T : Tasks σ τ ρ ε)

/-- A thread takes up the first pending item, or goes on with its own. -/
def workerStep (s : PoolState σ τ ρ ε) (i : Nat) : Option (PoolState σ τ ρ ε) :=
  if i < T.count then
    match s.futures i with
    | .pending =>
        if (List.range i).any (fun j => (s.futures j).isPending) = false ∧
            (List.range T.count).countP (fun j => (s.futures j).isRunning) < T.workers then
          some { s with futures := Function.update s.futures i (.running (T.start i)) }
        else none
    | .running phase =>
        match T.step i s.shared phase with
        | .going phase shared => some
            { s with shared := shared, futures := Function.update s.futures i (.running phase) }
        | .ended result shared => some
            { s with shared := shared, futures := Function.update s.futures i (.finished result) }
    | _ => none
  else none

/-- `executor.map` hands out the results, and the `with` statement shuts the pool down. -/
def callerStep (s : PoolState σ τ ρ ε) : Option (PoolState σ τ ρ ε) :=
  match s.caller with
  | .collecting results =>
      if results.length = T.count then some { s with caller := .returned results }
      else
        match s.futures results.length with
        | .finished (.ok result) => some { s with caller := .collecting (results ++ [result]) }
        | .finished (.error error) => some { s with caller := .cancelling error T.count }
        | _ => none
  | .cancelling error 0 => some { s with caller := .waiting error }
  | .cancelling error (i + 1) => some
      { s with
        futures := Function.update s.futures i (s.futures i).cancel
        caller := .cancelling error i }
  | .waiting error =>
      if (List.range T.count).any
          (fun i => (s.futures i).isPending || (s.futures i).isRunning) = false then
        some { s with caller := .raised error }
      else none
  | .returned _ | .raised _ => none

/-- The pool, from when all items are submitted. -/
def pool : Machine (PoolState σ τ ρ ε) Thread where
  init := ⟨T.shared, fun _ => .pending, .collecting []⟩
  step s
    | .worker i => T.workerStep s i
    | .caller => T.callerStep s

variable {T}

theorem step_worker (s : PoolState σ τ ρ ε) (i : Nat) :
    T.pool.step s (.worker i) = T.workerStep s i := rfl

theorem step_caller (s : PoolState σ τ ρ ε) : T.pool.step s .caller = T.callerStep s := rfl

/-! ## What a step does -/

/-- A worker changes the shared state and one future. -/
theorem workerStep_cases {s t : PoolState σ τ ρ ε} {i : Nat} (h : T.workerStep s i = some t) :
    i < T.count ∧ t.caller = s.caller ∧
      ((s.futures i = .pending ∧ t.shared = s.shared ∧
          t.futures = Function.update s.futures i (.running (T.start i))) ∨
        ∃ phase, s.futures i = .running phase ∧
          ((∃ phase', T.step i s.shared phase = .going phase' t.shared ∧
              t.futures = Function.update s.futures i (.running phase')) ∨
            ∃ result, T.step i s.shared phase = .ended result t.shared ∧
              t.futures = Function.update s.futures i (.finished result))) := by
  unfold workerStep at h
  split at h
  · next hi =>
      refine ⟨hi, ?_⟩
      split at h
      · next hpending =>
          split at h
          · obtain rfl := Option.some.inj h
            exact ⟨rfl, .inl ⟨hpending, rfl, rfl⟩⟩
          · cases h
      · next phase hrunning =>
          split at h
          · next phase' shared hstep =>
              obtain rfl := Option.some.inj h
              exact ⟨rfl, .inr ⟨phase, hrunning, .inl ⟨phase', hstep, rfl⟩⟩⟩
          · next result shared hstep =>
              obtain rfl := Option.some.inj h
              exact ⟨rfl, .inr ⟨phase, hrunning, .inr ⟨result, hstep, rfl⟩⟩⟩
      · cases h
  · cases h

/-- A step of the caller leaves the shared state, and every future that is taken up. -/
theorem callerStep_futures {s t : PoolState σ τ ρ ε} (h : T.callerStep s = some t) :
    t.shared = s.shared ∧ (t.futures = s.futures ∨
      ∃ i, t.futures = Function.update s.futures i (s.futures i).cancel) := by
  unfold callerStep at h
  split at h
  · split at h
    · obtain rfl := Option.some.inj h
      exact ⟨rfl, .inl rfl⟩
    · split at h
      · obtain rfl := Option.some.inj h
        exact ⟨rfl, .inl rfl⟩
      · obtain rfl := Option.some.inj h
        exact ⟨rfl, .inl rfl⟩
      · cases h
  · obtain rfl := Option.some.inj h
    exact ⟨rfl, .inl rfl⟩
  · obtain rfl := Option.some.inj h
    exact ⟨rfl, .inr ⟨_, rfl⟩⟩
  · split at h
    · obtain rfl := Option.some.inj h
      exact ⟨rfl, .inl rfl⟩
    · cases h
  · cases h
  · cases h

/-- What holds of the shared state and the futures at first, and is kept when an item is
taken up, goes on, ends or is cancelled, holds in every run. -/
theorem invariant {I : σ → (Nat → Future τ ρ ε) → Prop} (hinit : I T.shared fun _ => .pending)
    (hstart : ∀ shared futures i, I shared futures → i < T.count → futures i = .pending →
      I shared (Function.update futures i (.running (T.start i))))
    (hgoing : ∀ shared futures i phase phase' shared', I shared futures → i < T.count →
      futures i = .running phase → T.step i shared phase = .going phase' shared' →
        I shared' (Function.update futures i (.running phase')))
    (hended : ∀ shared futures i phase result shared', I shared futures → i < T.count →
      futures i = .running phase → T.step i shared phase = .ended result shared' →
        I shared' (Function.update futures i (.finished result)))
    (hcancel : ∀ shared futures i, I shared futures → futures i = .pending →
      I shared (Function.update futures i .cancelled))
    {s : PoolState σ τ ρ ε} (h : T.pool.Reachable s) : I s.shared s.futures := by
  apply h.invariant (I := fun s => I s.shared s.futures) hinit
  intro s thread t _ hI hstep
  cases thread with
  | worker i =>
      obtain ⟨hi, -, ⟨hpending, hshared, hfutures⟩ | ⟨phase, hrunning, hrest⟩⟩ :=
        workerStep_cases hstep
      · rw [hshared, hfutures]
        exact hstart _ _ _ hI hi hpending
      · rcases hrest with ⟨phase', hphase, hfutures⟩ | ⟨result, hresult, hfutures⟩
        · rw [hfutures]
          exact hgoing _ _ _ _ _ _ hI hi hrunning hphase
        · rw [hfutures]
          exact hended _ _ _ _ _ _ hI hi hrunning hresult
  | caller =>
      obtain ⟨hshared, hfutures | ⟨i, hfutures⟩⟩ := callerStep_futures hstep
      · rw [hshared, hfutures]
        exact hI
      · rw [hshared, hfutures]
        by_cases hpending : s.futures i = .pending
        · rw [hpending]
          exact hcancel _ _ _ hI hpending
        · rw [Future.cancel_of_ne hpending, Function.update_eq_self]
          exact hI

/-! ## What the caller gets -/

theorem finished_step {s t : PoolState σ τ ρ ε} {thread : Thread}
    (h : T.pool.step s thread = some t) {i : Nat} {result : Except ε ρ}
    (hi : s.futures i = .finished result) : t.futures i = .finished result := by
  have hother : ∀ {j : Nat} {future : Future τ ρ ε}, s.futures j ≠ .finished result →
      Function.update s.futures j future i = .finished result := by
    intro j future hj
    have hij : i ≠ j := by
      rintro rfl
      exact hj hi
    rw [Function.update_of_ne hij, hi]
  cases thread with
  | worker j =>
      obtain ⟨-, -, ⟨hpending, -, hfutures⟩ | ⟨phase, hrunning, hrest⟩⟩ := workerStep_cases h
      · rw [hfutures]
        exact hother (by rw [hpending]; exact nofun)
      · rcases hrest with ⟨phase', -, hfutures⟩ | ⟨result', -, hfutures⟩
        · rw [hfutures]
          exact hother (by rw [hrunning]; exact nofun)
        · rw [hfutures]
          exact hother (by rw [hrunning]; exact nofun)
  | caller =>
      obtain ⟨-, hfutures | ⟨j, hfutures⟩⟩ := callerStep_futures h
      · rw [hfutures, hi]
      · rw [hfutures]
        by_cases hij : i = j
        · rw [← hij, Function.update_self, hi]
          rfl
        · rw [Function.update_of_ne hij, hi]

/-- The results that the caller holds are those of the futures, in order; an error that it
raises is that of a future. -/
def Collected (T : Tasks σ τ ρ ε) (s : PoolState σ τ ρ ε) : Prop :=
  match s.caller with
  | .collecting results => results.length ≤ T.count ∧
      ∀ i r, results[i]? = some r → s.futures i = .finished (.ok r)
  | .returned results => results.length = T.count ∧
      ∀ i r, results[i]? = some r → s.futures i = .finished (.ok r)
  | .cancelling error _ | .waiting error | .raised error =>
      ∃ i < T.count, s.futures i = .finished (.error error)

theorem Collected.worker {s t : PoolState σ τ ρ ε} {i : Nat} (h : Collected T s)
    (hstep : T.pool.step s (.worker i) = some t) : Collected T t := by
  have hkept := fun j result => @finished_step σ τ ρ ε T s t (.worker i) hstep j result
  have hcaller := (workerStep_cases hstep).2.1
  unfold Collected at h ⊢
  rw [hcaller]
  cases hc : s.caller with
  | collecting | returned =>
      rw [hc] at h
      exact ⟨h.1, fun i r hr => hkept _ _ (h.2 i r hr)⟩
  | cancelling | waiting | raised =>
      rw [hc] at h
      obtain ⟨i, hi, hfinished⟩ := h
      exact ⟨i, hi, hkept _ _ hfinished⟩

/-- One more result, or the error of the future that is next. -/
theorem Collected.collect {s t : PoolState σ τ ρ ε} {results : List ρ} (h : Collected T s)
    (hc : s.caller = .collecting results) (hstep : T.pool.step s .caller = some t) :
    Collected T t := by
  rw [step_caller] at hstep
  unfold callerStep at hstep
  unfold Collected at h
  rw [hc] at h hstep
  simp only at h hstep
  split at hstep
  · next hlength =>
      obtain rfl := Option.some.inj hstep
      exact ⟨hlength, h.2⟩
  · next hlength =>
      have hlt : results.length < T.count := Nat.lt_of_le_of_ne h.1 hlength
      split at hstep
      · next result hfinished =>
          obtain rfl := Option.some.inj hstep
          refine ⟨by simpa using Nat.succ_le_of_lt hlt, fun i r hr => ?_⟩
          have hi : i < results.length + 1 := by
            simpa using (List.getElem?_eq_some_iff.mp hr).1
          rcases Nat.lt_succ_iff_lt_or_eq.mp hi with hlt | rfl
          · rw [List.getElem?_append_left hlt] at hr
            exact h.2 i r hr
          · rw [List.getElem?_concat_length] at hr
            obtain rfl := Option.some.inj hr
            exact hfinished
      · next error hfinished =>
          obtain rfl := Option.some.inj hstep
          exact ⟨_, hlt, hfinished⟩
      · cases hstep

theorem Collected.caller {s t : PoolState σ τ ρ ε} (h : Collected T s)
    (hstep : T.pool.step s .caller = some t) : Collected T t := by
  have hkept := fun i result => @finished_step σ τ ρ ε T s t .caller hstep i result
  cases hc : s.caller with
  | collecting results => exact h.collect hc hstep
  | cancelling error below =>
      rw [step_caller] at hstep
      unfold callerStep at hstep
      unfold Collected at h
      rw [hc] at h hstep
      obtain ⟨i, hi, hfinished⟩ := h
      cases below with
      | zero =>
          obtain rfl := Option.some.inj hstep
          exact ⟨i, hi, hfinished⟩
      | succ j =>
          obtain rfl := Option.some.inj hstep
          exact ⟨i, hi, hkept _ _ hfinished⟩
  | waiting error =>
      rw [step_caller] at hstep
      unfold callerStep at hstep
      unfold Collected at h
      rw [hc] at h hstep
      simp only at hstep
      split at hstep
      · obtain rfl := Option.some.inj hstep
        exact h
      · cases hstep
  | returned | raised =>
      rw [step_caller] at hstep
      unfold callerStep at hstep
      rw [hc] at hstep
      cases hstep

theorem collected_reachable {s : PoolState σ τ ρ ε} (h : T.pool.Reachable s) :
    Collected T s := by
  apply h.invariant ⟨Nat.zero_le _, nofun⟩
  intro s thread t _ hI hstep
  cases thread with
  | worker i => exact hI.worker hstep
  | caller => exact hI.caller hstep

/-! ## Items one after another -/

/-- An item, from a phase on, with no other in between. -/
inductive Runs (T : Tasks σ τ ρ ε) (i : Nat) : σ → τ → Except ε ρ → σ → Prop where
  | ended {shared shared' : σ} {phase : τ} {result : Except ε ρ}
      (h : T.step i shared phase = .ended result shared') : Runs T i shared phase result shared'
  | going {shared shared' shared'' : σ} {phase phase' : τ} {result : Except ε ρ}
      (h : T.step i shared phase = .going phase' shared')
      (hrest : Runs T i shared' phase' result shared'') : Runs T i shared phase result shared''

/-- The shared state once `f` has done the first items. -/
def sharedAfter (T : Tasks σ τ ρ ε) (f : Nat → σ → Except ε ρ × σ) : Nat → σ
  | 0 => T.shared
  | k + 1 => (f k (sharedAfter T f k)).2

theorem Runs.steps {i : Nat} {shared shared' : σ} {phase : τ} {result : Except ε ρ}
    (h : T.Runs i shared phase result shared') (hi : i < T.count) {s : PoolState σ τ ρ ε}
    (hshared : s.shared = shared) (hrunning : s.futures i = .running phase) :
    T.pool.Steps s { s with
      shared := shared', futures := Function.update s.futures i (.finished result) } := by
  induction h generalizing s with
  | ended hstep =>
      apply Relation.ReflTransGen.single
      refine ⟨.worker i, ?_⟩
      rw [step_worker, workerStep, if_pos hi, hrunning]
      simp only [hshared, hstep]
  | @going shared shared' shared'' phase phase' result hstep hrest ih =>
      have hfirst : T.pool.step s (.worker i) = some { s with
          shared := shared', futures := Function.update s.futures i (.running phase') } := by
        rw [step_worker, workerStep, if_pos hi, hrunning]
        simp only [hshared, hstep]
      have hsteps := @ih { s with
        shared := shared', futures := Function.update s.futures i (.running phase') } rfl
        (Function.update_self ..)
      rw [Function.update_idem] at hsteps
      exact Relation.ReflTransGen.head ⟨_, hfirst⟩ hsteps

/-- The futures once `f` has done the first items, and no other is taken up. -/
def futuresAfter (T : Tasks σ τ ρ ε) (f : Nat → σ → Except ε ρ × σ) (k i : Nat) :
    Future τ ρ ε :=
  if i < k then .finished (f i (T.sharedAfter f i)).1 else .pending

theorem futuresAfter_succ (f : Nat → σ → Except ε ρ × σ) (k : Nat) :
    T.futuresAfter f (k + 1) = Function.update (T.futuresAfter f k) k
      (.finished (f k (T.sharedAfter f k)).1) := by
  funext i
  by_cases hik : i = k
  · rw [hik, Function.update_self, futuresAfter, if_pos (Nat.lt_succ_self k)]
  · rw [Function.update_of_ne hik, futuresAfter, futuresAfter]
    have hlt : i < k + 1 ↔ i < k := by omega
    simp only [hlt]

/-- A thread takes up the next item while no other item is running. -/
theorem step_futuresAfter (f : Nat → σ → Except ε ρ × σ) {k : Nat} (hk : k < T.count)
    (caller : Caller ρ ε) (shared : σ) :
    T.pool.step ⟨shared, T.futuresAfter f k, caller⟩ (.worker k) =
      some ⟨shared, Function.update (T.futuresAfter f k) k (.running (T.start k)), caller⟩ := by
  have hpending : T.futuresAfter f k k = .pending := if_neg (Nat.lt_irrefl k)
  have hbefore : (List.range k).any (fun j => (T.futuresAfter f k j).isPending) = false := by
    apply List.any_eq_false.mpr
    intro j hj
    rw [futuresAfter, if_pos (List.mem_range.mp hj)]
    exact nofun
  have hidle : (List.range T.count).countP (fun j => (T.futuresAfter f k j).isRunning) = 0 := by
    apply List.countP_eq_zero.mpr
    intro j _
    rw [futuresAfter]
    split <;> exact nofun
  rw [step_worker, workerStep, if_pos hk]
  simp only [hpending]
  rw [if_pos ⟨hbefore, hidle ▸ T.workers_pos⟩]

/-- Some run finishes the items one after another before the caller does anything. -/
theorem exists_inTurn {f : Nat → σ → Except ε ρ × σ}
    (hf : ∀ i < T.count, ∀ shared, T.Runs i shared (T.start i) (f i shared).1 (f i shared).2) :
    ∀ k ≤ T.count, T.pool.Reachable ⟨T.sharedAfter f k, T.futuresAfter f k, .collecting []⟩ := by
  intro k
  induction k with
  | zero =>
      intro _
      have hnone : T.futuresAfter f 0 = fun _ => .pending := by
        funext i
        exact if_neg (Nat.not_lt_zero i)
      rw [hnone]
      exact Machine.Reachable.init
  | succ k ih =>
      intro hk
      have hstart := step_futuresAfter f hk (.collecting []) (T.sharedAfter f k)
      have hruns := (hf k hk (T.sharedAfter f k)).steps hk
        (s := ⟨_, Function.update (T.futuresAfter f k) k (.running (T.start k)), .collecting []⟩)
        rfl (Function.update_self (f := T.futuresAfter f k) ..)
      rw [Function.update_idem, ← futuresAfter_succ] at hruns
      exact ((ih (Nat.le_of_succ_le hk)).step hstart).steps hruns

section Raising

variable {s : PoolState σ τ ρ ε}
  (hdone : ∀ i < T.count, ∃ result, s.futures i = .finished result)

include hdone

theorem waiting_raises (error : ε) :
    T.pool.Steps { s with caller := .waiting error } { s with caller := .raised error } := by
  have hsettled : (List.range T.count).any
      (fun i => (s.futures i).isPending || (s.futures i).isRunning) = false := by
    apply List.any_eq_false.mpr
    intro i hi
    obtain ⟨result, hresult⟩ := hdone i (List.mem_range.mp hi)
    rw [hresult]
    exact nofun
  exact Relation.ReflTransGen.single ⟨.caller, if_pos hsettled⟩

theorem cancelling_raises (error : ε) {below : Nat} (hbelow : below ≤ T.count) :
    T.pool.Steps { s with caller := .cancelling error below }
      { s with caller := .raised error } := by
  induction below with
  | zero => exact Relation.ReflTransGen.head ⟨.caller, rfl⟩ (waiting_raises hdone error)
  | succ i ih =>
      obtain ⟨result, hresult⟩ := hdone i hbelow
      have hkept : Function.update s.futures i (s.futures i).cancel = s.futures := by
        rw [Future.cancel_of_ne (by rw [hresult]; exact nofun), Function.update_eq_self]
      have hstep : T.pool.step { s with caller := .cancelling error (i + 1) } .caller =
          some { s with caller := .cancelling error i } := by
        change some { s with
          futures := Function.update s.futures i (s.futures i).cancel
          caller := .cancelling error i } = _
        rw [hkept]
      exact Relation.ReflTransGen.head ⟨.caller, hstep⟩ (ih (Nat.le_of_succ_le hbelow))

/-- Where every item is done and one has failed, the caller raises in the end. -/
theorem collecting_raises {j : Nat} (hj : j < T.count) {error : ε}
    (herror : s.futures j = .finished (.error error)) {results : List ρ}
    (hle : results.length ≤ j) :
    ∃ error', T.pool.Steps { s with caller := .collecting results }
      { s with caller := .raised error' } := by
  induction hn : j - results.length generalizing results with
  | zero =>
      have hlength : results.length = j := by omega
      have hstep : T.pool.step { s with caller := .collecting results } .caller =
          some { s with caller := .cancelling error T.count } := by
        rw [step_caller]
        simp only [callerStep, hlength, Nat.ne_of_lt hj, if_false, herror]
      exact ⟨error, Relation.ReflTransGen.head ⟨.caller, hstep⟩
        (cancelling_raises hdone error (Nat.le_refl _))⟩
  | succ n ih =>
      have hlt : results.length < j := by omega
      obtain ⟨result, hresult⟩ := hdone results.length (Nat.lt_trans hlt hj)
      cases result with
      | error error' =>
          have hstep : T.pool.step { s with caller := .collecting results } .caller =
              some { s with caller := .cancelling error' T.count } := by
            rw [step_caller]
            simp only [callerStep, Nat.ne_of_lt (Nat.lt_trans hlt hj), if_false, hresult]
          exact ⟨error', Relation.ReflTransGen.head ⟨.caller, hstep⟩
            (cancelling_raises hdone error' (Nat.le_refl _))⟩
      | ok r =>
          have hstep : T.pool.step { s with caller := .collecting results } .caller =
              some { s with caller := .collecting (results ++ [r]) } := by
            rw [step_caller]
            simp only [callerStep, Nat.ne_of_lt (Nat.lt_trans hlt hj), if_false, hresult]
          have hlength : (results ++ [r]).length = results.length + 1 := by simp
          obtain ⟨error', hsteps⟩ := @ih (results ++ [r]) (by omega) (by omega)
          exact ⟨error', Relation.ReflTransGen.head ⟨.caller, hstep⟩ hsteps⟩

end Raising

end Tasks

end CheckpointEngine.Foundation
