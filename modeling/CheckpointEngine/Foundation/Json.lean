/-
  `Foundation.Json`: JSON values as Python holds them, and how Python compares and
  sorts them.

  A comparison that Python refuses is `none`.
-/
import Mathlib.Data.Rat.Floor
import Mathlib.Data.List.Sort
import Mathlib.Data.Prod.Lex

set_option autoImplicit false

namespace CheckpointEngine.Foundation

/-! ## Numbers -/

/-- What a number stands for. -/
inductive Quantity where
  | finite (value : Rat)
  | infinite (negative : Bool)
  | nan
  deriving DecidableEq, Repr

/-- A number: an `int`, or a `float`, which is one of the values that doubles have. -/
inductive Number where
  | int (value : Int)
  | float (value : Quantity)
  deriving DecidableEq, Repr

/-- The nearest integer, the even one of two. -/
def roundHalfEven (q : Rat) : Int :=
  let below := q.floor
  if q - below < 1 / 2 ∨ q - below = 1 / 2 ∧ below % 2 = 0 then below else below + 1

/-- The exponent of the largest power of two that is at most `|q|`. -/
def binaryExponent (q : Rat) : Int :=
  let estimate : Int := q.num.natAbs.log2 - q.den.log2
  if |q| < (2 : Rat) ^ estimate then estimate - 1 else estimate

/-- The double nearest to `q`. -/
def roundToDouble (q : Rat) : Quantity :=
  if q = 0 then .finite 0
  else
    let ulp : Rat := 2 ^ max (binaryExponent q - 52) (-1074)
    let rounded := roundHalfEven (q / ulp) * ulp
    if 2 ^ 1024 ≤ |rounded| then .infinite (q < 0) else .finite rounded

namespace Quantity

/-- `==` on what two numbers stand for. -/
def eq : Quantity → Quantity → Bool
  | .finite x, .finite y => x = y
  | .infinite x, .infinite y => x = y
  | _, _ => false

/-- `<` on what two numbers stand for. -/
def lt : Quantity → Quantity → Bool
  | .finite x, .finite y => x < y
  | .finite _, .infinite negative => !negative
  | .infinite negative, .finite _ => negative
  | .infinite x, .infinite y => x && !y
  | _, _ => false

/-- The difference of two doubles. -/
def sub : Quantity → Quantity → Quantity
  | .finite x, .finite y => roundToDouble (x - y)
  | .finite _, .infinite negative => .infinite (!negative)
  | .infinite negative, .finite _ => .infinite negative
  | .infinite x, .infinite y => if x = y then .nan else .infinite x
  | _, _ => .nan

end Quantity

namespace Number

/-- What a number stands for. -/
def quantity : Number → Quantity
  | .int value => .finite value
  | .float value => value

/-- The value of a number that has one. -/
def value? (x : Number) : Option Rat :=
  match x.quantity with
  | .finite value => some value
  | _ => none

/-- `float(x)`, or `none` where that overflows. -/
def toDouble : Number → Option Quantity
  | .float value => some value
  | .int value =>
      match roundToDouble value with
      | .infinite _ => none
      | rounded => some rounded

/-- `x - y`, or `none` where an `int` is too large to become a float. -/
def sub : Number → Number → Option Number
  | .int x, .int y => some (.int (x - y))
  | x, y =>
      match x.toDouble, y.toDouble with
      | some x, some y => some (.float (x.sub y))
      | _, _ => none

end Number

/-! ## Values -/

/-- What `json.loads` returns.  A dictionary is its entries in the order of insertion. -/
inductive Json where
  | null
  | bool (value : Bool)
  | num (value : Number)
  | str (text : String)
  | arr (items : List Json)
  | obj (entries : List (String × Json))

namespace Json

/-- The number that a value is; `True` and `False` are numbers. -/
def number? : Json → Option Number
  | .bool value => some (.int (if value then 1 else 0))
  | .num value => some value
  | _ => none

/-- The value of a number that has one. -/
def value? (x : Json) : Option Rat := x.number?.bind Number.value?

mutual

/-- `==`. -/
def eq : Json → Json → Bool
  | .null, .null => true
  | .str x, .str y => x = y
  | .arr xs, .arr ys => eqItems xs ys
  | .obj xs, .obj ys => xs.length = ys.length && eqEntries xs ys
  | x, y =>
      match x.number?, y.number? with
      | some m, some n => m.quantity.eq n.quantity
      | _, _ => false

def eqItems : List Json → List Json → Bool
  | [], [] => true
  | x :: xs, y :: ys => x.eq y && eqItems xs ys
  | _, _ => false

def eqEntries : List (String × Json) → List (String × Json) → Bool
  | [], _ => true
  | (key, x) :: xs, ys =>
      (match ys.lookup key with
        | some y => x.eq y
        | none => false) && eqEntries xs ys

end

mutual

/-- `<`. -/
def lt : Json → Json → Option Bool
  | .str x, .str y => some (x < y)
  | .arr xs, .arr ys => ltItems xs ys
  | x, y =>
      match x.number?, y.number? with
      | some m, some n => some (m.quantity.lt n.quantity)
      | _, _ => none

/-- Lists are compared at the first place where they differ. -/
def ltItems : List Json → List Json → Option Bool
  | [], ys => some !ys.isEmpty
  | _ :: _, [] => some false
  | x :: xs, y :: ys => if x.eq y then ltItems xs ys else x.lt y

end

/-! ## Comparing numbers -/

theorem value?_eq_some {x : Json} {a : Rat} :
    x.value? = some a ↔ ∃ n, x.number? = some n ∧ n.quantity = .finite a := by
  rw [value?, Option.bind_eq_some_iff]
  constructor
  · intro ⟨n, hn, ha⟩
    refine ⟨n, hn, ?_⟩
    unfold Number.value? at ha
    split at ha
    · next value hvalue => rw [hvalue, Option.some.inj ha]
    · cases ha
  · intro ⟨n, hn, ha⟩
    refine ⟨n, hn, ?_⟩
    rw [Number.value?, ha]

/-- A number equals what has its value. -/
theorem eq_iff_value {x y : Json} {a : Rat} (hx : x.value? = some a) :
    x.eq y = true ↔ y.value? = some a := by
  obtain ⟨m, hm, ha⟩ := value?_eq_some.mp hx
  have hnumbers : x.eq y = match x.number?, y.number? with
      | some m, some n => m.quantity.eq n.quantity
      | _, _ => false := by
    cases x with
    | bool | num => rfl
    | null | str | arr | obj => cases hm
  rw [hnumbers, hm, value?_eq_some]
  cases hy : y.number? with
  | none => simp
  | some n =>
      simp only [ha, Option.some.injEq, exists_eq_left']
      cases n.quantity with
      | finite b => simpa [Quantity.eq] using eq_comm
      | infinite | nan => simp [Quantity.eq]

theorem lt_of_value {x y : Json} {a b : Rat} (hx : x.value? = some a) (hy : y.value? = some b) :
    x.lt y = some (decide (a < b)) := by
  obtain ⟨m, hm, ha⟩ := value?_eq_some.mp hx
  obtain ⟨n, hn, hb⟩ := value?_eq_some.mp hy
  have hnumbers : x.lt y = match x.number?, y.number? with
      | some m, some n => some (m.quantity.lt n.quantity)
      | _, _ => none := by
    cases x with
    | bool | num => rfl
    | null | str | arr | obj => cases hm
  rw [hnumbers, hm, hn]
  simp only [ha, hb, Quantity.lt]

/-- Lists of two numbers are compared as pairs are. -/
theorem lt_pair {x y x' y' : Json} {p q : Rat × Rat} (hx : x.value? = some p.1)
    (hy : y.value? = some p.2) (hx' : x'.value? = some q.1) (hy' : y'.value? = some q.2) :
    (Json.arr [x, y]).lt (.arr [x', y']) = some (decide (toLex p < toLex q)) := by
  have hfirst : x.eq x' = decide (p.1 = q.1) := by
    rw [Bool.eq_iff_iff, eq_iff_value hx, hx', Option.some.injEq, decide_eq_true_eq, eq_comm]
  have hsecond : y.eq y' = decide (p.2 = q.2) := by
    rw [Bool.eq_iff_iff, eq_iff_value hy, hy', Option.some.injEq, decide_eq_true_eq, eq_comm]
  have hlex : (toLex p < toLex q) ↔ p.1 < q.1 ∨ p.1 = q.1 ∧ p.2 < q.2 := Prod.Lex.toLex_lt_toLex
  rw [Json.lt, ltItems, ltItems, ltItems, hfirst, hsecond, lt_of_value hx hx', lt_of_value hy hy']
  by_cases h₁ : p.1 = q.1
  · by_cases h₂ : p.2 = q.2
    · simp [hlex, h₁, h₂]
    · simp [hlex, h₁, h₂]
  · simp [hlex, h₁]

end Json

/-! ## Sorting -/

section Sorting

variable {α κ : Type} (lt : α → α → Option Bool)

/-- `x` before the first item that is not less. -/
def insertBy (x : α) : List α → Option (List α)
  | [] => some [x]
  | y :: rest => do
      if ← lt y x then return y :: (← insertBy x rest) else return x :: y :: rest

/-- `sorted`: stable, by `<` alone. -/
def sortedBy : List α → Option (List α)
  | [] => some []
  | x :: rest => do insertBy lt x (← sortedBy rest)

variable {lt}

theorem insertBy_perm {x : α} {items sorted : List α} (h : insertBy lt x items = some sorted) :
    sorted.Perm (x :: items) := by
  induction items generalizing sorted with
  | nil =>
      obtain rfl := Option.some.inj h
      exact List.Perm.refl _
  | cons y rest ih =>
      obtain ⟨less, _, h⟩ := Option.bind_eq_some_iff.mp h
      cases less with
      | false =>
          obtain rfl := Option.some.inj h
          exact List.Perm.refl _
      | true =>
          obtain ⟨tail, htail, h⟩ := Option.bind_eq_some_iff.mp h
          obtain rfl := Option.some.inj h
          exact ((ih htail).cons y).trans (List.Perm.swap x y rest)

/-- Sorting loses nothing. -/
theorem sortedBy_perm {items sorted : List α} (h : sortedBy lt items = some sorted) :
    sorted.Perm items := by
  induction items generalizing sorted with
  | nil =>
      obtain rfl := Option.some.inj h
      exact List.Perm.refl _
  | cons x rest ih =>
      obtain ⟨tail, htail, h⟩ := Option.bind_eq_some_iff.mp h
      exact (insertBy_perm h).trans ((ih htail).cons x)

variable [LinearOrder κ] {key : α → κ}

theorem insertBy_eq {x : α} {items : List α}
    (h : ∀ y ∈ items, lt y x = some (decide (key y < key x))) :
    insertBy lt x items = some (items.orderedInsert (fun a b => key a ≤ key b) x) := by
  induction items with
  | nil => rfl
  | cons y rest ih =>
      have hrest := ih fun z hz => h z (List.mem_cons_of_mem _ hz)
      rw [insertBy, h y List.mem_cons_self, hrest, List.orderedInsert]
      by_cases hle : key x ≤ key y
      · simp [hle, not_lt.mpr hle]
      · simp [hle, not_le.mp hle]

/-- Where `<` compares keys of a linear order, sorting is insertion by these keys. -/
theorem sortedBy_eq {items : List α}
    (h : ∀ x ∈ items, ∀ y ∈ items, lt x y = some (decide (key x < key y))) :
    sortedBy lt items = some (items.insertionSort fun a b => key a ≤ key b) := by
  induction items with
  | nil => rfl
  | cons x rest ih =>
      have hrest := ih fun y hy z hz =>
        h y (List.mem_cons_of_mem _ hy) z (List.mem_cons_of_mem _ hz)
      rw [sortedBy, hrest, List.insertionSort_cons]
      apply insertBy_eq
      intro y hy
      have hmem : y ∈ rest := (List.perm_insertionSort _ rest).mem_iff.mp hy
      exact h y (List.mem_cons_of_mem _ hmem) x List.mem_cons_self

end Sorting

end CheckpointEngine.Foundation
