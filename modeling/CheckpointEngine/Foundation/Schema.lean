/-
  `Foundation.Schema`: types that are written as JSON, and read back with checks.
-/
import CheckpointEngine.Foundation.Dictionary
import CheckpointEngine.Foundation.Fallible
import CheckpointEngine.Foundation.JsonWriter
import CheckpointEngine.Foundation.Override

set_option autoImplicit false

namespace CheckpointEngine.Foundation

/-- How a type is written, and how a JSON value is checked against it. -/
structure Schema (ε α : Type) where
  dump : α → Json
  validate : Json → Except ε α

namespace Schema

variable {ε α κ : Type}

/-- What is written of the value has a text, and passes the check as that value. -/
structure Keeps (s : Schema ε α) (x : α) : Prop where
  plain : (s.dump x).Plain
  validate_dump : s.validate (s.dump x) = .ok x

/-- Every value is kept. -/
def Lawful (s : Schema ε α) : Prop := ∀ x, s.Keeps x

/-- A string. -/
def str (bad : Json → ε) : Schema ε String where
  dump := .str
  validate
    | .str text => .ok text
    | json => .error (bad json)

theorem lawful_str (bad : Json → ε) : (str bad).Lawful := fun text => ⟨.str text, rfl⟩

/-- An integer, with the check of it. -/
def int (check : Json → Except ε Int) : Schema ε Int where
  dump n := .num (.int n)
  validate := check

theorem lawful_int {check : Json → Except ε Int} (h : ∀ n, check (.num (.int n)) = .ok n) :
    (int check).Lawful := fun n => ⟨.int n, h n⟩

/-- A value, or `None`. -/
def nullable (s : Schema ε α) : Schema ε (Option α) where
  dump
    | none => .null
    | some x => s.dump x
  validate
    | .null => .ok none
    | json => do return some (← s.validate json)

theorem lawful_nullable {s : Schema ε α} (h : s.Lawful) (hnull : ∀ x, s.dump x ≠ .null) :
    (nullable s).Lawful := by
  intro x
  cases x with
  | none => exact ⟨.null, rfl⟩
  | some x =>
      refine ⟨(h x).plain, ?_⟩
      have hvalid := (h x).validate_dump
      change (nullable s).validate (s.dump x) = _
      cases hdump : s.dump x with
      | null => exact absurd hdump (hnull x)
      | bool | num | str | arr | obj =>
          rw [hdump] at hvalid
          rw [nullable]
          simp only [hvalid]
          rfl

/-- A list. -/
def list (bad : Json → ε) (s : Schema ε α) : Schema ε (List α) where
  dump xs := .arr (xs.map s.dump)
  validate
    | .arr items => items.mapM s.validate
    | json => .error (bad json)

theorem lawful_list (bad : Json → ε) {s : Schema ε α} (h : s.Lawful) : (list bad s).Lawful := by
  intro xs
  constructor
  · refine .arr fun item hitem => ?_
    obtain ⟨x, -, rfl⟩ := List.mem_map.mp hitem
    exact (h x).plain
  · refine mapM_eq_ok_iff.mpr (List.forall₂_map_left_iff.mpr ?_)
    exact List.forall₂_same.mpr fun x _ => (h x).validate_dump

/-- A field of a model, from the entries of an object. -/
def field (missing : String → ε) (key : String) (s : Schema ε α)
    (entries : List (String × Json)) : Except ε α :=
  match entries.lookup key with
  | none => .error (missing key)
  | some json => s.validate json

theorem field_eq {missing : String → ε} {key : String} {s : Schema ε α}
    {entries : List (String × Json)} {x : α} (hx : s.Keeps x)
    (h : entries.lookup key = some (s.dump x)) : field missing key s entries = .ok x := by
  rw [field, h]
  exact hx.validate_dump

section Dictionaries

variable [DecidableEq κ]

/-- A dictionary whose keys are written as text.  A key that is read again overrides. -/
def dict (bad : Json → ε) (keyText : κ → String) (readKey : String → Except ε κ)
    (s : Schema ε α) : Schema ε (List (κ × α)) where
  dump entries := .obj (entries.map fun entry => (keyText entry.1, s.dump entry.2))
  validate
    | .obj entries => do
        let read ← entries.mapM fun entry => do
          return (← readKey entry.1, ← s.validate entry.2)
        return read.foldl (fun entered entry => setItem Prod.fst entry entered) []
    | json => .error (bad json)

/-- Entries with different keys are entered as they are. -/
theorem foldl_setItem {entries : List (κ × α)} :
    ∀ {entered : List (κ × α)}, ((entered ++ entries).map Prod.fst).Nodup →
      entries.foldl (fun entered entry => setItem Prod.fst entry entered) entered =
        entered ++ entries := by
  induction entries with
  | nil => exact fun _ => (List.append_nil _).symm
  | cons entry rest ih =>
      intro entered hkeys
      have hnotin : entry.1 ∉ entered.map Prod.fst := by
        intro hmem
        rw [List.map_append, List.nodup_append] at hkeys
        exact hkeys.2.2 _ hmem _ List.mem_cons_self rfl
      rw [List.foldl_cons, setItem_of_notMem hnotin, ih (by rwa [List.append_assoc]),
        List.append_assoc, List.singleton_append]

theorem foldl_setItem_nodup (entries : List (κ × α)) :
    ∀ {entered : List (κ × α)}, (entered.map Prod.fst).Nodup →
      ((entries.foldl (fun entered entry => setItem Prod.fst entry entered) entered).map
        Prod.fst).Nodup := by
  induction entries with
  | nil => exact fun h => h
  | cons entry rest ih => exact fun h => ih (setItem_keys_nodup h)

variable {bad : Json → ε} {keyText : κ → String} {readKey : String → Except ε κ}
  {s : Schema ε α}

/-- A dictionary is kept if its keys are. -/
theorem keeps_dict (h : s.Lawful) (hkey : ∀ key, readKey (keyText key) = .ok key)
    {entries : List (κ × α)} (hkeys : (entries.map Prod.fst).Nodup) :
    (dict bad keyText readKey s).Keeps entries := by
  have hinj : ∀ key key' : κ, keyText key = keyText key' → key = key' := by
    intro key key' heq
    exact Except.ok.inj ((hkey key).symm.trans ((congrArg readKey heq).trans (hkey key')))
  constructor
  · refine .obj ?_ fun entry hentry => ?_
    · rw [List.map_map]
      have hnodup := hkeys.map fun key key' heq => hinj key key' heq
      rwa [List.map_map] at hnodup
    · obtain ⟨x, -, rfl⟩ := List.mem_map.mp hentry
      exact (h x.2).plain
  · have hread : (entries.map fun entry => (keyText entry.1, s.dump entry.2)).mapM
        (fun entry => do return (← readKey entry.1, ← s.validate entry.2)) = .ok entries := by
      refine mapM_eq_ok_iff.mpr (List.forall₂_map_left_iff.mpr ?_)
      refine List.forall₂_same.mpr fun entry _ => ?_
      rw [hkey, (h entry.2).validate_dump]
      rfl
    have hentered := @foldl_setItem α κ _ entries [] hkeys
    simp only [dict, hread]
    exact congrArg Except.ok hentered

/-- What passes the check has each key once. -/
theorem dict_validate_nodup {json : Json} {entries : List (κ × α)}
    (h : (dict bad keyText readKey s).validate json = .ok entries) :
    (entries.map Prod.fst).Nodup := by
  cases json with
  | obj read =>
      obtain ⟨found, -, hfound⟩ := bind_eq_ok.mp h
      obtain rfl := Except.ok.inj hfound
      exact foldl_setItem_nodup found List.nodup_nil
  | null | bool | num | str | arr => cases h

end Dictionaries

end Schema

end CheckpointEngine.Foundation
