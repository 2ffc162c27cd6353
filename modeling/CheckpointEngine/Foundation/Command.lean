/-
  `Foundation.Command`: commands that may raise and keep the state they have
  reached, with rules for both of their exits.

  A command is a computation of `EStateM`: an exception does not undo what was
  done before it.
-/
import Mathlib.Data.List.Basic

set_option autoImplicit false

namespace CheckpointEngine.Foundation.Command

variable {ε σ α β : Type}

/-- From `s`, `c` returns where `Q` holds of its value, or raises where `E` holds. -/
def wp (c : EStateM ε σ α) (Q : α → σ → Prop) (E : ε → σ → Prop) (s : σ) : Prop :=
  match c s with
  | .ok a t => Q a t
  | .error e t => E e t

/-- `I` holds however `c` ends. -/
abbrev Keeps (c : EStateM ε σ α) (I : σ → Prop) (s : σ) : Prop :=
  wp c (fun _ => I) (fun _ => I) s

/-- The state in which `c` ends, whether it returns or raises. -/
def after (c : EStateM ε σ α) (s : σ) : σ :=
  match c s with
  | .ok _ t => t
  | .error _ t => t

/-- A call of code outside the model, which raises as it is told. -/
def attempt (fault : Option ε) : EStateM ε σ Unit :=
  match fault with
  | none => pure ()
  | some e => throw e

/-- An assertion. -/
def require (p : Prop) [Decidable p] (e : ε) : EStateM ε σ Unit :=
  if p then pure () else throw e

/-! ## What holds at the exits -/

theorem keeps_iff {c : EStateM ε σ α} {I : σ → Prop} {s : σ} : Keeps c I s ↔ I (after c s) := by
  simp only [Keeps, wp, after]
  cases c s <;> rfl

/-- What a command must establish may be weakened at both exits. -/
theorem wp_mono {c : EStateM ε σ α} {Q Q' : α → σ → Prop} {E E' : ε → σ → Prop} {s : σ}
    (h : wp c Q E s) (hQ : ∀ a t, Q a t → Q' a t) (hE : ∀ e t, E e t → E' e t) :
    wp c Q' E' s := by
  simp only [wp] at h ⊢
  cases hc : c s with
  | ok a t =>
      rw [hc] at h
      exact hQ a t h
  | error e t =>
      rw [hc] at h
      exact hE e t h

theorem keeps_and {c : EStateM ε σ α} {I J : σ → Prop} {s : σ} (hI : Keeps c I s)
    (hJ : Keeps c J s) : Keeps c (fun t => I t ∧ J t) s :=
  keeps_iff.mpr ⟨keeps_iff.mp hI, keeps_iff.mp hJ⟩

theorem wp_true (c : EStateM ε σ α) (s : σ) : wp c (fun _ _ => True) (fun _ _ => True) s := by
  simp only [wp]
  cases c s <;> trivial

/-- A command that does not raise. -/
theorem wp_returns_iff {c : EStateM ε σ α} {Q : α → σ → Prop} {s : σ} :
    wp c Q (fun _ _ => False) s ↔ ∃ a t, c s = .ok a t ∧ Q a t := by
  simp only [wp]
  cases c s <;> simp

/-- A command that returns one value in one state. -/
theorem wp_eq_iff {c : EStateM ε σ α} {a : α} {s t : σ} :
    wp c (fun a' t' => a' = a ∧ t' = t) (fun _ _ => False) s ↔ c s = .ok a t := by
  simp only [wp]
  cases c s <;> simp

/-- After a command that returns comes the next. -/
theorem after_bind {c : EStateM ε σ α} {f : α → EStateM ε σ β} {a : α} {s t : σ}
    (h : c s = .ok a t) : after (c >>= f) s = after (f a) t := by
  simp only [after, bind, EStateM.bind, h]

/-! ## One rule for each construct -/

section Rules

variable {Q : α → σ → Prop} {E : ε → σ → Prop} {s : σ}

@[simp] theorem wp_pure {a : α} : wp (pure a : EStateM ε σ α) Q E s ↔ Q a s := Iff.rfl

@[simp] theorem wp_throw {e : ε} : wp (throw e : EStateM ε σ α) Q E s ↔ E e s := Iff.rfl

@[simp] theorem wp_bind {c : EStateM ε σ β} {f : β → EStateM ε σ α} :
    wp (c >>= f) Q E s ↔ wp c (fun b t => wp (f b) Q E t) E s := by
  simp only [wp, bind, EStateM.bind]
  cases c s <;> rfl

@[simp] theorem wp_map {c : EStateM ε σ β} {f : β → α} :
    wp (f <$> c) Q E s ↔ wp c (fun b t => Q (f b) t) E s := by
  simp only [wp, Functor.map, EStateM.map]
  cases c s <;> rfl

@[simp] theorem wp_get {Q : σ → σ → Prop} : wp (get : EStateM ε σ σ) Q E s ↔ Q s s := Iff.rfl

@[simp] theorem wp_modify {f : σ → σ} {Q : PUnit → σ → Prop} :
    wp (modify f : EStateM ε σ PUnit) Q E s ↔ Q () (f s) := Iff.rfl

@[simp] theorem wp_attempt {fault : Option ε} {Q : Unit → σ → Prop} :
    wp (attempt fault) Q E s ↔ (fault = none → Q () s) ∧ (∀ e, fault = some e → E e s) := by
  cases fault <;> simp [attempt]

@[simp] theorem wp_require {p : Prop} [Decidable p] {e : ε} {Q : Unit → σ → Prop} :
    wp (require p e) Q E s ↔ (p → Q () s) ∧ (¬p → E e s) := by
  by_cases hp : p <;> simp [require, hp]

theorem wp_require_of {p : Prop} [Decidable p] {e : ε} {Q : Unit → σ → Prop} (hp : p) :
    wp (require p e) Q E s ↔ Q () s := by
  simp [hp]

theorem wp_require_of_not {p : Prop} [Decidable p] {e : ε} {Q : Unit → σ → Prop} (hp : ¬p) :
    wp (require p e) Q E s ↔ E e s := by
  simp [hp]

/-- A handler takes over where the body raises, in the state it raised in. -/
@[simp] theorem wp_tryCatch {c : EStateM ε σ α} {handler : ε → EStateM ε σ α} :
    wp (tryCatch c handler) Q E s ↔ wp c Q (fun e t => wp (handler e) Q E t) s := by
  change (match EStateM.tryCatch c handler s with | .ok a t => Q a t | .error e t => E e t) ↔ _
  simp only [wp, EStateM.tryCatch]
  cases c s <;> rfl

/-- A finalizer runs at both exits, and an exception of its own replaces the body's. -/
@[simp] theorem wp_tryFinally {c : EStateM ε σ α} {fin : EStateM ε σ β} :
    wp (tryFinally c fin) Q E s ↔
      wp c (fun a t => wp fin (fun _ => Q a) E t) (fun e t => wp fin (fun _ => E e) E t) s := by
  simp only [wp, tryFinally, tryFinally', Functor.map, EStateM.map]
  cases c s with
  | ok a t => simp only; cases fin t <;> rfl
  | error e t => simp only; cases fin t <;> rfl

@[simp] theorem wp_ite {p : Prop} [Decidable p] {c d : EStateM ε σ α} :
    wp (if p then c else d) Q E s ↔ (p → wp c Q E s) ∧ (¬p → wp d Q E s) := by
  by_cases hp : p <;> simp [hp]

/-- A loop: what its body keeps, told for the elements that remain. -/
theorem wp_forM {xs : List β} {body : β → EStateM ε σ PUnit} {Q : PUnit → σ → Prop}
    (I : List β → σ → Prop) (hstart : I xs s)
    (hbody : ∀ x rest t, I (x :: rest) t → wp (body x) (fun _ => I rest) E t)
    (hend : ∀ t, I [] t → Q () t) : wp (xs.forM body) Q E s := by
  induction xs generalizing s with
  | nil => exact hend s hstart
  | cons x rest ih =>
      change wp (body x >>= fun _ => rest.forM body) Q E s
      rw [wp_bind]
      apply wp_mono (hbody x rest s hstart)
      · exact fun _ t ht => ih ht
      · exact fun _ _ he => he

end Rules

/-! ## What every part of a command keeps -/

section Keeping

variable {I : σ → Prop} {s : σ}

theorem keeps_attempt {fault : Option ε} (h : I s) : Keeps (attempt fault) I s := by
  cases fault <;> exact h

theorem keeps_get (h : I s) : Keeps (get : EStateM ε σ σ) I s := h

theorem keeps_modify {f : σ → σ} (h : I (f s)) : Keeps (modify f : EStateM ε σ PUnit) I s := h

theorem keeps_require {p : Prop} [Decidable p] {e : ε} (h : I s) :
    Keeps (require p e) I s := by
  rw [Keeps, wp_require]
  exact ⟨fun _ => h, fun _ => h⟩

theorem keeps_ite {p : Prop} [Decidable p] {c d : EStateM ε σ α} (hc : Keeps c I s)
    (hd : Keeps d I s) : Keeps (if p then c else d) I s := by
  rw [Keeps, wp_ite]
  exact ⟨fun _ => hc, fun _ => hd⟩

theorem keeps_tryCatch {c : EStateM ε σ α} {handler : ε → EStateM ε σ α} (hc : Keeps c I s)
    (hhandler : ∀ e t, I t → Keeps (handler e) I t) : Keeps (tryCatch c handler) I s := by
  rw [Keeps, wp_tryCatch]
  exact wp_mono hc (fun _ _ h => h) hhandler

theorem keeps_bind {c : EStateM ε σ β} {f : β → EStateM ε σ α} (hc : Keeps c I s)
    (hf : ∀ b t, I t → Keeps (f b) I t) : Keeps (c >>= f) I s := by
  rw [Keeps, wp_bind]
  exact wp_mono hc hf fun _ _ h => h

theorem keeps_forM_of_mem {xs : List β} {body : β → EStateM ε σ PUnit}
    (hbody : ∀ x ∈ xs, ∀ t, I t → Keeps (body x) I t) (h : I s) : Keeps (xs.forM body) I s := by
  apply wp_forM (fun rest t => rest ⊆ xs ∧ I t) ⟨List.Subset.refl xs, h⟩
  · intro x rest t ht
    obtain ⟨hrest, ht⟩ := ht
    have hx : x ∈ xs := hrest List.mem_cons_self
    apply wp_mono (hbody x hx t ht)
    · exact fun _ _ ht => ⟨fun y hy => hrest (List.mem_cons_of_mem x hy), ht⟩
    · exact fun _ _ ht => ht
  · exact fun _ ht => ht.2

theorem keeps_forM {xs : List β} {body : β → EStateM ε σ PUnit}
    (hbody : ∀ x t, I t → Keeps (body x) I t) (h : I s) : Keeps (xs.forM body) I s :=
  wp_forM (fun _ => I) h (fun x _ => hbody x) fun _ ht => ht

end Keeping

/-! ## What a command leaves alone -/

section Preserving

variable {γ : Type} {view : σ → γ}

/-- However `c` ends, the view is what it was. -/
def Preserves (view : σ → γ) (c : EStateM ε σ α) : Prop :=
  ∀ s, Keeps c (fun t => view t = view s) s

theorem Preserves.keeps {c : EStateM ε σ α} (h : Preserves view c) {s : σ} {v : γ}
    (hv : view s = v) : Keeps c (fun t => view t = v) s :=
  hv ▸ h s

theorem preserves_pure {a : α} : Preserves view (pure a : EStateM ε σ α) := fun _ => rfl

theorem preserves_throw {e : ε} : Preserves view (throw e : EStateM ε σ α) := fun _ => rfl

theorem preserves_get : Preserves view (get : EStateM ε σ σ) := fun _ => rfl

theorem preserves_attempt {fault : Option ε} : Preserves view (attempt fault) :=
  fun _ => keeps_attempt rfl

theorem preserves_require {p : Prop} [Decidable p] {e : ε} :
    Preserves view (require p e : EStateM ε σ Unit) :=
  fun _ => keeps_require rfl

theorem preserves_ite {p : Prop} [Decidable p] {c d : EStateM ε σ α} (hc : Preserves view c)
    (hd : Preserves view d) : Preserves view (if p then c else d) :=
  fun s => keeps_ite (hc s) (hd s)

theorem preserves_bind {c : EStateM ε σ β} {f : β → EStateM ε σ α} (hc : Preserves view c)
    (hf : ∀ b, Preserves view (f b)) : Preserves view (c >>= f) := by
  intro s
  apply keeps_bind (hc s)
  intro b t ht
  apply wp_mono (hf b t)
  · exact fun _ _ hu => hu.trans ht
  · exact fun _ _ hu => hu.trans ht

theorem preserves_tryFinally {c : EStateM ε σ α} {fin : EStateM ε σ β} (hc : Preserves view c)
    (hfin : Preserves view fin) : Preserves view (tryFinally c fin) := by
  intro s
  have hend : ∀ t, view t = view s → Keeps fin (fun u => view u = view s) t := by
    intro t ht
    apply wp_mono (hfin t)
    · exact fun _ _ hu => hu.trans ht
    · exact fun _ _ hu => hu.trans ht
  rw [Keeps, wp_tryFinally]
  exact wp_mono (hc s) (fun _ => hend) fun _ => hend

theorem preserves_forM {xs : List β} {body : β → EStateM ε σ PUnit}
    (hbody : ∀ x, Preserves view (body x)) : Preserves view (xs.forM body) := by
  intro s
  refine keeps_forM (fun x t ht => ?_) rfl
  apply wp_mono (hbody x t)
  · exact fun _ _ hu => hu.trans ht
  · exact fun _ _ hu => hu.trans ht

end Preserving

end CheckpointEngine.Foundation.Command
