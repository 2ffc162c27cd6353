/-
  `Foundation.Machine`: systems of agents that take deterministic steps in an
  arbitrary order.

  An agent is enabled in a state when its step is defined there.  All
  nondeterminism is the choice of the agent, so a run is an interleaving.
-/
import Mathlib.Logic.Relation
import Mathlib.Data.List.Basic
import Mathlib.Data.List.Induction

set_option autoImplicit false

namespace CheckpointEngine.Foundation

/-- An initial state, and what each agent does in each state. -/
structure Machine (σ ι : Type) where
  init : σ
  step : σ → ι → Option σ

namespace Machine

variable {σ ι : Type}

/-- Some agent takes `s` to `t`. -/
def Next (M : Machine σ ι) (s t : σ) : Prop := ∃ agent, M.step s agent = some t

/-- Finitely many steps, of any agents, take `s` to `t`. -/
def Steps (M : Machine σ ι) : σ → σ → Prop := Relation.ReflTransGen M.Next

/-- `s` occurs in some run. -/
def Reachable (M : Machine σ ι) (s : σ) : Prop := M.Steps M.init s

/-- The state after the agents have taken their steps in this order. -/
def run (M : Machine σ ι) (s : σ) : List ι → Option σ
  | [] => some s
  | agent :: rest => (M.step s agent).bind fun t => M.run t rest

/-- No agent is enabled. -/
def Final (M : Machine σ ι) (s : σ) : Prop := ∀ agent, M.step s agent = none

variable {M : Machine σ ι}

theorem Reachable.init : M.Reachable M.init := Relation.ReflTransGen.refl

theorem Reachable.step {s t : σ} {agent : ι} (h : M.Reachable s)
    (hstep : M.step s agent = some t) : M.Reachable t :=
  Relation.ReflTransGen.tail h ⟨agent, hstep⟩

theorem Reachable.steps {s t : σ} (h : M.Reachable s) (hst : M.Steps s t) : M.Reachable t :=
  Relation.ReflTransGen.trans h hst

theorem steps_run {s t : σ} {agents : List ι} (h : M.run s agents = some t) : M.Steps s t := by
  induction agents generalizing s with
  | nil =>
      cases h
      exact .refl
  | cons agent rest ih =>
      obtain ⟨s', hstep, hrest⟩ := Option.bind_eq_some_iff.mp h
      exact Relation.ReflTransGen.head ⟨agent, hstep⟩ (ih hrest)

/-- Where no agent is enabled nothing more happens. -/
theorem Final.steps {s t : σ} (hfinal : M.Final s) (hst : M.Steps s t) : t = s := by
  cases Relation.ReflTransGen.cases_head hst with
  | inl heq => exact heq.symm
  | inr hnext =>
      obtain ⟨s', ⟨agent, hstep⟩, _⟩ := hnext
      rw [hfinal agent] at hstep
      contradiction

/-- What is computed of the end of a run holds of the state there. -/
theorem exists_of_run {P : σ → Prop} [DecidablePred P] (agents : List ι)
    (h : (M.run M.init agents).any (fun s => P s) = true) :
    ∃ s, M.run M.init agents = some s ∧ P s := by
  cases hrun : M.run M.init agents with
  | none => simp [hrun] at h
  | some s => exact ⟨s, rfl, by simpa [hrun] using h⟩

/-- What is computed of the end of a run holds of a reachable state. -/
theorem Reachable.of_run {P : σ → Prop} [DecidablePred P] (agents : List ι)
    (h : (M.run M.init agents).any (fun s => P s) = true) : ∃ s, M.Reachable s ∧ P s :=
  have ⟨s, hrun, hP⟩ := exists_of_run agents h
  ⟨s, steps_run hrun, hP⟩

/-- What holds initially and is kept by every step from a reachable state holds
in every reachable state. -/
theorem Reachable.invariant {I : σ → Prop} (hinit : I M.init)
    (hstep : ∀ s agent t, M.Reachable s → I s → M.step s agent = some t → I t)
    {s : σ} (h : M.Reachable s) : I s := by
  induction h with
  | refl => exact hinit
  | tail hs hnext ih =>
      obtain ⟨agent, hagent⟩ := hnext
      exact hstep _ agent _ hs ih hagent

/-- `s` occurs in a run all of whose steps satisfy `P`. -/
inductive ReachableBy (M : Machine σ ι) (P : σ → ι → Prop) : σ → Prop where
  | init : M.ReachableBy P M.init
  | step {s t : σ} {agent : ι} (h : M.ReachableBy P s) (hP : P s agent)
      (hstep : M.step s agent = some t) : M.ReachableBy P t

/-- What holds initially and is kept by every step that satisfies `P` holds in every
run of such steps. -/
theorem ReachableBy.invariant {P : σ → ι → Prop} {I : σ → Prop} (hinit : I M.init)
    (hstep : ∀ s agent t, I s → P s agent → M.step s agent = some t → I t)
    {s : σ} (h : M.ReachableBy P s) : I s := by
  induction h with
  | init => exact hinit
  | step _ hP hagent ih => exact hstep _ _ _ ih hP hagent

/-- Where every step satisfies `P`, so does every run. -/
theorem Reachable.reachableBy {P : σ → ι → Prop} (hP : ∀ s agent, P s agent) {s : σ}
    (h : M.Reachable s) : M.ReachableBy P s := by
  induction h with
  | refl => exact .init
  | tail _ hnext ih =>
      obtain ⟨agent, hagent⟩ := hnext
      exact ih.step (hP _ agent) hagent

theorem ReachableBy.mono {P Q : σ → ι → Prop} (hPQ : ∀ s agent, P s agent → Q s agent) {s : σ}
    (h : M.ReachableBy P s) : M.ReachableBy Q s := by
  induction h with
  | init => exact .init
  | step _ hP hstep ih => exact ih.step (hPQ _ _ hP) hstep

/-- A run of agents whose steps satisfy `P` wherever they are taken. -/
theorem ReachableBy.run {P : σ → ι → Prop} {agents : List ι}
    (hP : ∀ s, ∀ agent ∈ agents, P s agent) {s t : σ} (h : M.ReachableBy P s)
    (hrun : M.run s agents = some t) : M.ReachableBy P t := by
  induction agents generalizing s with
  | nil =>
      cases hrun
      exact h
  | cons agent rest ih =>
      obtain ⟨s', hstep, hrest⟩ := Option.bind_eq_some_iff.mp hrun
      exact ih (fun s other hother => hP s other (List.mem_cons_of_mem _ hother))
        (h.step (hP s agent List.mem_cons_self) hstep) hrest

/-- A run that stops at the first step that does not satisfy `P`. -/
def runBy (M : Machine σ ι) (P : σ → ι → Prop) [∀ s agent, Decidable (P s agent)] (s : σ) :
    List ι → Option σ
  | [] => some s
  | agent :: rest =>
      if P s agent then (M.step s agent).bind fun t => M.runBy P t rest else none

theorem ReachableBy.runBy {P : σ → ι → Prop} [∀ s agent, Decidable (P s agent)]
    {agents : List ι} {s t : σ} (h : M.ReachableBy P s) (hrun : M.runBy P s agents = some t) :
    M.ReachableBy P t := by
  induction agents generalizing s with
  | nil =>
      cases hrun
      exact h
  | cons agent rest ih =>
      rw [Machine.runBy] at hrun
      split at hrun
      · rename_i hP
        obtain ⟨s', hstep, hrest⟩ := Option.bind_eq_some_iff.mp hrun
        exact ih (h.step hP hstep) hrest
      · cases hrun

/-- These agents lead to `s`, in steps that satisfy `P`. -/
inductive Trace (M : Machine σ ι) (P : σ → ι → Prop) : List ι → σ → Prop where
  | nil : M.Trace P [] M.init
  | snoc {agents : List ι} {s t : σ} {agent : ι} (h : M.Trace P agents s) (hP : P s agent)
      (hstep : M.step s agent = some t) : M.Trace P (agents ++ [agent]) t

theorem Trace.reachableBy {P : σ → ι → Prop} {agents : List ι} {s : σ}
    (h : M.Trace P agents s) : M.ReachableBy P s := by
  induction h with
  | nil => exact .init
  | snoc _ hP hstep ih => exact ih.step hP hstep

theorem Trace.mono {P Q : σ → ι → Prop} {agents : List ι} {s : σ} (h : M.Trace P agents s)
    (hPQ : ∀ s agent, P s agent → Q s agent) : M.Trace Q agents s := by
  induction h with
  | nil => exact .nil
  | snoc _ hP hstep ih => exact ih.snoc (hPQ _ _ hP) hstep

theorem run_concat {agents : List ι} {agent : ι} {s : σ} :
    M.run s (agents ++ [agent]) = (M.run s agents).bind fun t => M.step t agent := by
  induction agents generalizing s with
  | nil =>
      change (M.step s agent).bind some = M.step s agent
      exact Option.bind_fun_some _
  | cons first rest ih =>
      rw [List.cons_append, run, run, Option.bind_assoc]
      exact Option.bind_congr fun _ _ => ih

theorem Trace.run {P : σ → ι → Prop} {agents : List ι} {s : σ} (h : M.Trace P agents s) :
    M.run M.init agents = some s := by
  induction h with
  | nil => rfl
  | snoc _ _ hstep ih => rw [run_concat, ih, Option.bind_some, hstep]

/-- A run of agents whose steps satisfy `P` wherever they are taken. -/
theorem Trace.of_run {P : σ → ι → Prop} {agents : List ι}
    (hP : ∀ s, ∀ agent ∈ agents, P s agent) {s : σ} (hrun : M.run M.init agents = some s) :
    M.Trace P agents s := by
  induction agents using List.reverseRecOn generalizing s with
  | nil =>
      cases hrun
      exact .nil
  | append_singleton agents agent ih =>
      rw [run_concat] at hrun
      obtain ⟨s', hbefore, hstep⟩ := Option.bind_eq_some_iff.mp hrun
      have hthere : agent ∈ agents ++ [agent] :=
        List.mem_append_right _ (List.mem_singleton_self agent)
      exact (ih (fun s other hother => hP s other (List.mem_append_left _ hother)) hbefore).snoc
        (hP s' agent hthere) hstep

/-- Every step of a trace was taken at the end of a trace. -/
theorem Trace.split {P : σ → ι → Prop} {before after : List ι} {agent : ι} {t : σ}
    (h : M.Trace P (before ++ agent :: after) t) :
    ∃ s s', M.Trace P before s ∧ P s agent ∧ M.step s agent = some s' := by
  generalize hagents : before ++ agent :: after = agents at h
  induction h generalizing after with
  | nil => simp at hagents
  | @snoc agents _ _ last h hP hstep ih =>
      rcases List.eq_nil_or_concat after with hnil | ⟨init, other, hlast⟩
      · subst hnil
        obtain ⟨rfl, hagent⟩ := List.append_inj' hagents rfl
        obtain rfl := List.singleton_inj.mp hagent
        exact ⟨_, _, h, hP, hstep⟩
      · subst hlast
        have hcut : (before ++ agent :: init) ++ [other] = agents ++ [last] := by
          rw [← hagents, List.concat_eq_append, List.append_assoc, List.cons_append]
        exact ih (List.append_inj' hcut rfl).1

/-- What is computed of the end of a run holds of a state that such runs reach. -/
theorem ReachableBy.of_runBy {P : σ → ι → Prop} [∀ s agent, Decidable (P s agent)]
    {Q : σ → Prop} [DecidablePred Q] (agents : List ι)
    (h : (M.runBy P M.init agents).any (fun s => Q s) = true) : ∃ s, M.ReachableBy P s ∧ Q s := by
  cases hrun : M.runBy P M.init agents with
  | none => simp [hrun] at h
  | some s => exact ⟨s, ReachableBy.init.runBy hrun, by simpa [hrun] using h⟩

/-- What every step from a reachable state keeps, every continuation keeps. -/
theorem Steps.invariant {I : σ → Prop}
    (hstep : ∀ s agent t, M.Reachable s → I s → M.step s agent = some t → I t)
    {s t : σ} (hs : M.Reachable s) (hI : I s) (hst : M.Steps s t) : I t := by
  induction hst with
  | refl => exact hI
  | tail hprev hnext ih =>
      obtain ⟨agent, hagent⟩ := hnext
      exact hstep _ agent _ (hs.steps hprev) ih hagent

/-- Every step from a reachable state lowers the measure. -/
def Descends (M : Machine σ ι) (μ : σ → Nat) : Prop :=
  ∀ s agent t, M.Reachable s → M.step s agent = some t → μ t < μ s

/-- Under a descending measure every run can be continued until no agent is
enabled. -/
theorem Descends.exists_final {μ : σ → Nat} (hμ : M.Descends μ) {s : σ}
    (hs : M.Reachable s) : ∃ t, M.Steps s t ∧ M.Final t := by
  induction hn : μ s using Nat.strongRecOn generalizing s with
  | ind n ih =>
      by_cases hfinal : M.Final s
      · exact ⟨s, .refl, hfinal⟩
      · obtain ⟨agent, hagent⟩ := Classical.not_forall.mp hfinal
        obtain ⟨t, ht⟩ := Option.ne_none_iff_exists'.mp hagent
        obtain ⟨u, htu, hu⟩ := ih (μ t) (hn ▸ hμ s agent t hs ht) (hs.step ht) rfl
        exact ⟨u, Relation.ReflTransGen.head ⟨agent, ht⟩ htu, hu⟩

/-- Under a descending measure no run is infinite. -/
theorem Descends.no_infinite_run {μ : σ → Nat} (hμ : M.Descends μ) (run : Nat → σ)
    (hstart : M.Reachable (run 0)) : ¬ ∀ n, M.Next (run n) (run (n + 1)) := by
  intro hrun
  have hreach : ∀ n, M.Reachable (run n) := by
    intro n
    induction n with
    | zero => exact hstart
    | succ n ih =>
        obtain ⟨agent, hagent⟩ := hrun n
        exact ih.step hagent
  have hdrop : ∀ n, μ (run n) + n ≤ μ (run 0) := by
    intro n
    induction n with
    | zero => simp
    | succ n ih =>
        obtain ⟨agent, hagent⟩ := hrun n
        have := hμ (run n) agent (run (n + 1)) (hreach n) hagent
        omega
  have := hdrop (μ (run 0) + 1)
  omega

end Machine

end CheckpointEngine.Foundation
