/-
  `Foundation.Fallible`: computations that may raise, taken apart.
-/
import Mathlib.Data.List.Basic
import Mathlib.Data.List.Forall2

set_option autoImplicit false

namespace CheckpointEngine.Foundation

variable {ε σ α β : Type}

/-- How a call ends, and the state it leaves. -/
inductive Outcome (ε σ : Type) where
  | returned (state : σ)
  | raised (error : ε) (state : σ)
  deriving DecidableEq, Repr

/-- The state a call leaves, however it ends. -/
def Outcome.state : Outcome ε σ → σ
  | .returned state | .raised _ state => state

/-- A part of the state, or a view of it. -/
def Outcome.map {τ : Type} (f : σ → τ) : Outcome ε σ → Outcome ε τ
  | .returned state => .returned (f state)
  | .raised error state => .raised error (f state)

theorem bind_of_ok {x : Except ε α} {a : α} (h : x = .ok a) (f : α → Except ε β) :
    x >>= f = f a := by
  rw [h]
  rfl

/-- A sequence succeeds when both its parts do. -/
theorem bind_eq_ok {x : Except ε α} {f : α → Except ε β} {b : β} :
    x >>= f = .ok b ↔ ∃ a, x = .ok a ∧ f a = .ok b := by
  cases x with
  | error e =>
      constructor
      · intro h
        cases h
      · rintro ⟨a, h, _⟩
        cases h
  | ok a =>
      constructor
      · intro h
        exact ⟨a, rfl, h⟩
      · rintro ⟨a', h, hf⟩
        obtain rfl := Except.ok.inj h
        exact hf

/-- What is known of the result of each call is known of the results. -/
theorem mapM_map_eq {γ : Type} {f : α → Except ε β} {g : α → γ} {k : β → γ} {xs : List α}
    {ys : List β} (h : xs.mapM f = .ok ys) (hf : ∀ x ∈ xs, ∀ y, f x = .ok y → k y = g x) :
    ys.map k = xs.map g := by
  induction xs generalizing ys with
  | nil =>
      obtain rfl : [] = ys := Except.ok.inj h
      rw [List.map_nil, List.map_nil]
  | cons x xs ih =>
      rw [List.mapM_cons] at h
      obtain ⟨y, hx, h⟩ := bind_eq_ok.mp h
      obtain ⟨ys', hrest, h⟩ := bind_eq_ok.mp h
      obtain rfl : y :: ys' = ys := Except.ok.inj h
      have htail := ih hrest fun x' hx' => hf x' (List.mem_cons_of_mem _ hx')
      rw [List.map_cons, List.map_cons, hf x List.mem_cons_self y hx, htail]

/-- A map that succeeds gives what each of its calls can only give. -/
theorem mapM_eq_map {f : α → Except ε β} {g : α → β} {xs : List α} {ys : List β}
    (h : xs.mapM f = .ok ys) (hf : ∀ x y, f x = .ok y → y = g x) : ys = xs.map g := by
  induction xs generalizing ys with
  | nil =>
      obtain rfl : [] = ys := Except.ok.inj h
      rfl
  | cons x xs ih =>
      rw [List.mapM_cons] at h
      obtain ⟨y, hx, h⟩ := bind_eq_ok.mp h
      obtain ⟨ys', hrest, h⟩ := bind_eq_ok.mp h
      obtain rfl : y :: ys' = ys := Except.ok.inj h
      rw [List.map_cons, hf x y hx, ih hrest]

/-- A map succeeds when its calls do, place by place. -/
theorem mapM_eq_ok_iff {f : α → Except ε β} {xs : List α} {ys : List β} :
    xs.mapM f = .ok ys ↔ List.Forall₂ (fun x y => f x = .ok y) xs ys := by
  induction xs generalizing ys with
  | nil =>
      rw [List.mapM_nil, List.forall₂_nil_left_iff]
      exact ⟨fun h => (Except.ok.inj h).symm, fun h => congrArg Except.ok h.symm⟩
  | cons x xs ih =>
      rw [List.mapM_cons, bind_eq_ok, List.forall₂_cons_left_iff]
      constructor
      · rintro ⟨y, hy, h⟩
        obtain ⟨rest, hrest, h⟩ := bind_eq_ok.mp h
        exact ⟨y, rest, hy, ih.mp hrest, (Except.ok.inj h).symm⟩
      · rintro ⟨y, rest, hy, hrest, rfl⟩
        exact ⟨y, hy, bind_eq_ok.mpr ⟨rest, ih.mpr hrest, rfl⟩⟩

/-- A loop succeeds when the call for each item does. -/
theorem forM_eq_ok_iff {f : α → Except ε Unit} {xs : List α} :
    xs.forM f = .ok () ↔ ∀ x ∈ xs, f x = .ok () := by
  induction xs with
  | nil => exact iff_of_true rfl fun x hx => absurd hx List.not_mem_nil
  | cons x xs ih =>
      change (f x >>= fun _ => xs.forM f) = _ ↔ _
      rw [bind_eq_ok, List.forall_mem_cons, ← ih]
      constructor
      · rintro ⟨⟨⟩, hx, hrest⟩
        exact ⟨hx, hrest⟩
      · rintro ⟨hx, hrest⟩
        exact ⟨⟨⟩, hx, hrest⟩

/-- Calls each of which succeeds, with a result that satisfies `P`, give a map that does. -/
theorem exists_mapM {f : α → Except ε β} {P : β → Prop} {xs : List α}
    (h : ∀ x ∈ xs, ∃ y, f x = .ok y ∧ P y) : ∃ ys, xs.mapM f = .ok ys ∧ ∀ y ∈ ys, P y := by
  induction xs with
  | nil => exact ⟨[], rfl, fun y hy => absurd hy List.not_mem_nil⟩
  | cons x xs ih =>
      obtain ⟨⟨y, hy, hP⟩, htail⟩ := List.forall_mem_cons.mp h
      obtain ⟨ys, hys, hall⟩ := ih htail
      refine ⟨y :: ys, ?_, List.forall_mem_cons.mpr ⟨hP, hall⟩⟩
      rw [List.mapM_cons, hy, hys]
      rfl

/-- A map each of whose calls succeeds gives their results. -/
theorem mapM_eq_ok {f : α → Except ε β} {g : α → β} {xs : List α}
    (h : ∀ x ∈ xs, f x = .ok (g x)) : xs.mapM f = .ok (xs.map g) := by
  induction xs with
  | nil => rfl
  | cons x xs ih =>
      have hrest := ih fun y hy => h y (List.mem_cons_of_mem _ hy)
      rw [List.mapM_cons, h x List.mem_cons_self, hrest]
      rfl

/-- A map over a numbered list succeeds place by place. -/
theorem mapM_zipIdx_ok {f : α × Nat → Except ε β} :
    ∀ {xs : List α} {k : Nat} {ys : List β}, (xs.zipIdx k).mapM f = .ok ys →
      ys.length = xs.length ∧
        ∀ i y, ys[i]? = some y → ∃ x, xs[i]? = some x ∧ f (x, k + i) = .ok y := by
  intro xs
  induction xs with
  | nil =>
      intro k ys h
      obtain rfl : [] = ys := Except.ok.inj h
      simp
  | cons x xs ih =>
      intro k ys h
      rw [List.zipIdx_cons, List.mapM_cons] at h
      obtain ⟨y, hx, h⟩ := bind_eq_ok.mp h
      obtain ⟨ys', hrest, h⟩ := bind_eq_ok.mp h
      obtain rfl : y :: ys' = ys := Except.ok.inj h
      obtain ⟨hlength, hplaces⟩ := ih hrest
      refine ⟨congrArg Nat.succ hlength, fun i y' hy' => ?_⟩
      cases i with
      | zero =>
          obtain rfl := Option.some.inj hy'
          exact ⟨x, rfl, hx⟩
      | succ i =>
          obtain ⟨x', hx', hf⟩ := hplaces i y' hy'
          exact ⟨x', hx', by rw [← hf, Nat.add_right_comm, Nat.add_assoc]⟩

/-- A map over a numbered list succeeds where it does at every place. -/
theorem exists_mapM_zipIdx {f : α × Nat → Except ε β} :
    ∀ {xs : List α} {k : Nat}, (∀ i x, xs[i]? = some x → ∃ y, f (x, k + i) = .ok y) →
      ∃ ys, (xs.zipIdx k).mapM f = .ok ys := by
  intro xs
  induction xs with
  | nil => exact fun _ => ⟨[], rfl⟩
  | cons x xs ih =>
      intro k h
      obtain ⟨y, hy⟩ := h 0 x rfl
      obtain ⟨ys, hys⟩ := @ih (k + 1) fun i x' hx' => by
        rw [Nat.add_assoc, Nat.add_comm 1 i]
        exact h (i + 1) x' hx'
      refine ⟨y :: ys, ?_⟩
      rw [List.zipIdx_cons, List.mapM_cons]
      rw [Nat.add_zero] at hy
      rw [hy, hys]
      rfl

end CheckpointEngine.Foundation
