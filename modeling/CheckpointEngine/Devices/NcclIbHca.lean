/-
  `Devices.NcclIbHca`: `_parse_NCCL_IB_HCA` against the grammar that it documents.

  A token that names an available device stands for that device only; by the grammar it
  also stands for the devices whose names it begins.
-/
import Mathlib.Data.List.Dedup
import Mathlib.Data.List.Sort
import CheckpointEngine.Foundation.Text

set_option autoImplicit false

namespace CheckpointEngine.Devices

open CheckpointEngine.Foundation

def maxHcas : Nat := 32

/-- `sorted(set(devices))`. -/
def sortedSet (devices : List Text) : List Text :=
  devices.dedup.insertionSort fun x y => x ≤ y

/-- `device_name` in `_resolve_device_specs`: the spec without its port. -/
def deviceName (spec : Text) : Text := Text.strip (spec.takeWhile (· ≠ ':'))

/-- `base_devices` in `_resolve_device_specs`. -/
def baseDevices (isExactMatch : Bool) (availableDevices : List Text) (deviceName : Text) :
    List Text :=
  if deviceName ∈ availableDevices then [deviceName]
  else if isExactMatch then []
  else availableDevices.filter fun dev => deviceName.isPrefixOf dev

def resolveDeviceSpecs (deviceSpecs : List Text) (isExactMatch : Bool)
    (availableDevices : List Text) : List Text :=
  sortedSet (deviceSpecs.flatMap fun spec =>
    baseDevices isExactMatch availableDevices (deviceName spec))

/-- `[spec.strip() for spec in value.split(",") if spec.strip()]`. -/
def deviceSpecs (value : Text) : List Text :=
  ((Text.split ',' value).map Text.strip).filter (· ≠ [])

def parseNCCLIBHCA (value : Text) (availableDevices : List Text) : List Text :=
  if value = [] ∨ Text.strip value = [] then availableDevices.take maxHcas
  else
    let (isExclude, value) := Text.takeMark '^' (Text.strip value)
    let (isExactMatch, value) := Text.takeMark '=' value
    let resolved := resolveDeviceSpecs (deviceSpecs value) isExactMatch availableDevices
    let result :=
      if isExclude then availableDevices.filter (· ∉ resolved) else resolved
    if maxHcas < result.length then result.take maxHcas else result

/-! ## The documented grammar -/

/-- What a value says: whether it excludes, whether its tokens are exact names, and its
tokens. -/
structure Selection where
  exclude : Bool
  exact : Bool
  tokens : List Text
  deriving DecidableEq

def Selection.ofValue (value : Text) : Selection :=
  let (exclude, rest) := Text.takeMark '^' (Text.strip value)
  let (exact, rest) := Text.takeMark '=' rest
  ⟨exclude, exact, (deviceSpecs rest).map deviceName⟩

namespace Selection

/-- A device matches a token. -/
def MatchesToken (sel : Selection) (dev token : Text) : Prop :=
  if sel.exact then dev = token else token <+: dev

instance (sel : Selection) (dev token : Text) : Decidable (sel.MatchesToken dev token) :=
  inferInstanceAs (Decidable (if sel.exact then dev = token else token <+: dev))

/-- A device matches a token of the list. -/
def Matches (sel : Selection) (dev : Text) : Prop :=
  ∃ token ∈ sel.tokens, sel.MatchesToken dev token

instance (sel : Selection) (dev : Text) : Decidable (sel.Matches dev) :=
  inferInstanceAs (Decidable (∃ token ∈ sel.tokens, sel.MatchesToken dev token))

/-- A device matches only tokens that name other available devices. -/
def Shadowed (sel : Selection) (availableDevices : List Text) (dev : Text) : Prop :=
  sel.Matches dev ∧
    ∀ token ∈ sel.tokens, sel.MatchesToken dev token → token ∈ availableDevices ∧ token ≠ dev

instance (sel : Selection) (availableDevices : List Text) (dev : Text) :
    Decidable (sel.Shadowed availableDevices dev) :=
  inferInstanceAs (Decidable (_ ∧ _))

/-- The devices that the value selects. -/
def select (sel : Selection) (availableDevices : List Text) : List Text :=
  if sel.exclude then availableDevices.filter fun dev => ¬ sel.Matches dev
  else availableDevices.filter fun dev => sel.Matches dev

end Selection

/-- The reference selection: an empty value selects all devices. -/
def referenceSelection (value : Text) (availableDevices : List Text) : List Text :=
  if Text.strip value = [] then availableDevices
  else (Selection.ofValue value).select availableDevices

/-! ## What the code selects -/

theorem mem_sortedSet {devices : List Text} {dev : Text} :
    dev ∈ sortedSet devices ↔ dev ∈ devices := by
  rw [sortedSet, List.mem_insertionSort, List.mem_dedup]

theorem nodup_sortedSet (devices : List Text) : (sortedSet devices).Nodup :=
  (List.perm_insertionSort _ _).nodup_iff.mpr (List.nodup_dedup devices)

theorem mem_baseDevices {isExactMatch : Bool} {availableDevices : List Text} {name dev : Text} :
    dev ∈ baseDevices isExactMatch availableDevices name ↔
      dev ∈ availableDevices ∧
        (dev = name ∨ isExactMatch = false ∧ name ∉ availableDevices ∧ name <+: dev) := by
  by_cases hname : name ∈ availableDevices
  · rw [baseDevices, if_pos hname, List.mem_singleton]
    constructor
    · rintro rfl
      exact ⟨hname, Or.inl rfl⟩
    · rintro ⟨-, heq | ⟨-, hnot, -⟩⟩
      · exact heq
      · exact absurd hname hnot
  · rw [baseDevices, if_neg hname]
    have hne : dev ∈ availableDevices → dev ≠ name := fun hdev heq => hname (heq ▸ hdev)
    cases isExactMatch with
    | true =>
        refine iff_of_false (by simp) ?_
        rintro ⟨hdev, heq | ⟨hfalse, -⟩⟩
        · exact hne hdev heq
        · cases hfalse
    | false =>
        rw [if_neg Bool.false_ne_true, List.mem_filter, List.isPrefixOf_iff_prefix]
        constructor
        · rintro ⟨hdev, hstart⟩
          exact ⟨hdev, Or.inr ⟨rfl, hname, hstart⟩⟩
        · rintro ⟨hdev, heq | ⟨-, -, hstart⟩⟩
          · exact absurd heq (hne hdev)
          · exact ⟨hdev, hstart⟩

theorem mem_resolveDeviceSpecs {specs : List Text} {isExactMatch : Bool}
    {availableDevices : List Text} {dev : Text} :
    dev ∈ resolveDeviceSpecs specs isExactMatch availableDevices ↔
      ∃ token ∈ specs.map deviceName, dev ∈ baseDevices isExactMatch availableDevices token := by
  rw [resolveDeviceSpecs, mem_sortedSet, List.mem_flatMap]
  simp only [List.mem_map, exists_exists_and_eq_and]

/-- The code finds the devices that match a token, except those that match only tokens
that name other devices. -/
theorem mem_resolve_iff {sel : Selection} {specs availableDevices : List Text} {dev : Text}
    (htokens : sel.tokens = specs.map deviceName) (hdev : dev ∈ availableDevices) :
    dev ∈ resolveDeviceSpecs specs sel.exact availableDevices ↔
      sel.Matches dev ∧ ¬ sel.Shadowed availableDevices dev := by
  rw [mem_resolveDeviceSpecs, ← htokens]
  constructor
  · rintro ⟨token, htoken, hbase⟩
    obtain ⟨-, rfl | ⟨hexact, hnot, hstart⟩⟩ := mem_baseDevices.mp hbase
    · have hmatch : sel.MatchesToken dev dev := by
        rw [Selection.MatchesToken]
        split
        · rfl
        · exact List.prefix_refl _
      exact ⟨⟨dev, htoken, hmatch⟩, fun hshadow => (hshadow.2 dev htoken hmatch).2 rfl⟩
    · have hmatch : sel.MatchesToken dev token := by
        rw [Selection.MatchesToken, hexact]
        exact hstart
      exact ⟨⟨token, htoken, hmatch⟩, fun hshadow => hnot (hshadow.2 token htoken hmatch).1⟩
  · rintro ⟨hmatches, hvisible⟩
    have hother := not_and.mp hvisible hmatches
    push Not at hother
    obtain ⟨token, htoken, hmatch, hname⟩ := hother
    refine ⟨token, htoken, mem_baseDevices.mpr ⟨hdev, ?_⟩⟩
    by_cases heq : dev = token
    · exact Or.inl heq
    · refine Or.inr ?_
      have hnot : token ∉ availableDevices := fun hmem => heq (hname hmem).symm
      rw [Selection.MatchesToken] at hmatch
      split at hmatch
      · exact absurd hmatch heq
      · rename_i hexact
        exact ⟨Bool.eq_false_of_not_eq_true hexact, hnot, hmatch⟩

/-- The same for the specs and the marks of a value. -/
theorem mem_resolve_ofValue_iff (value : Text) {availableDevices : List Text} {dev : Text}
    (hdev : dev ∈ availableDevices) :
    dev ∈ resolveDeviceSpecs
        (deviceSpecs (Text.takeMark '=' (Text.takeMark '^' (Text.strip value)).2).2)
        (Selection.ofValue value).exact availableDevices ↔
      (Selection.ofValue value).Matches dev ∧
        ¬ (Selection.ofValue value).Shadowed availableDevices dev :=
  mem_resolve_iff rfl hdev

theorem resolve_subset {specs availableDevices : List Text} {isExactMatch : Bool} :
    resolveDeviceSpecs specs isExactMatch availableDevices ⊆ availableDevices := by
  intro dev hdev
  obtain ⟨token, -, hbase⟩ := mem_resolveDeviceSpecs.mp hdev
  exact (mem_baseDevices.mp hbase).1

/-- The devices that the code finds, before they are cut to `maxHcas`. -/
def resolvedDevices (value : Text) (availableDevices : List Text) : List Text :=
  let sel := Selection.ofValue value
  let rest := (Text.takeMark '=' (Text.takeMark '^' (Text.strip value)).2).2
  let resolved := resolveDeviceSpecs (deviceSpecs rest) sel.exact availableDevices
  if sel.exclude then availableDevices.filter (· ∉ resolved) else resolved

theorem parseNCCLIBHCA_of_strip_nil {value : Text} {availableDevices : List Text}
    (h : Text.strip value = []) :
    parseNCCLIBHCA value availableDevices = availableDevices.take maxHcas := by
  rw [parseNCCLIBHCA, if_pos (Or.inr h)]

theorem parseNCCLIBHCA_of_strip_ne_nil {value : Text} {availableDevices : List Text}
    (h : Text.strip value ≠ []) :
    parseNCCLIBHCA value availableDevices =
      (resolvedDevices value availableDevices).take maxHcas := by
  have hvalue : value ≠ [] := by
    rintro rfl
    exact h Text.strip_nil
  rw [parseNCCLIBHCA, if_neg (not_or.mpr ⟨hvalue, h⟩)]
  change (if maxHcas < (resolvedDevices value availableDevices).length then
    (resolvedDevices value availableDevices).take maxHcas
    else resolvedDevices value availableDevices) = _
  split
  · rfl
  · rename_i hle
    exact (List.take_of_length_le (Nat.le_of_not_lt hle)).symm

/-- A device is found when it is one that the value selects, but a shadowed device is
found exactly when it is not. -/
theorem mem_resolvedDevices {value : Text} {availableDevices : List Text} {dev : Text}
    (hdev : dev ∈ availableDevices) :
    dev ∈ resolvedDevices value availableDevices ↔
      (if (Selection.ofValue value).exclude then
        ¬ ((Selection.ofValue value).Matches dev ∧
          ¬ (Selection.ofValue value).Shadowed availableDevices dev)
      else (Selection.ofValue value).Matches dev ∧
        ¬ (Selection.ofValue value).Shadowed availableDevices dev) := by
  have hresolve := mem_resolve_ofValue_iff value hdev
  rw [resolvedDevices]
  split
  · rw [List.mem_filter, decide_eq_true_iff, hresolve, and_iff_right hdev]
  · exact hresolve

theorem resolvedDevices_subset (value : Text) (availableDevices : List Text) :
    resolvedDevices value availableDevices ⊆ availableDevices := by
  rw [resolvedDevices]
  split
  · exact List.filter_subset_self _
  · exact resolve_subset

theorem nodup_resolvedDevices (value : Text) {availableDevices : List Text}
    (hnodup : availableDevices.Nodup) : (resolvedDevices value availableDevices).Nodup := by
  rw [resolvedDevices]
  split
  · exact hnodup.filter _
  · exact nodup_sortedSet _

theorem tokens_of_strip_nil {value : Text} (h : Text.strip value = []) :
    (Selection.ofValue value).tokens = [] := by
  rw [Selection.ofValue, h]
  rfl

theorem not_shadowed_of_strip_nil {value : Text} (h : Text.strip value = [])
    (availableDevices : List Text) (dev : Text) :
    ¬ (Selection.ofValue value).Shadowed availableDevices dev := by
  rintro ⟨⟨token, htoken, -⟩, -⟩
  rw [tokens_of_strip_nil h] at htoken
  cases htoken

theorem mem_select {sel : Selection} {availableDevices : List Text} {dev : Text} :
    dev ∈ sel.select availableDevices ↔
      dev ∈ availableDevices ∧ if sel.exclude then ¬ sel.Matches dev else sel.Matches dev := by
  rw [Selection.select]
  split <;> rw [List.mem_filter, decide_eq_true_iff]

/-- The code finds what the value selects exactly when no device is shadowed. -/
theorem resolvedDevices_iff (value : Text) (availableDevices : List Text) :
    (∀ dev, dev ∈ resolvedDevices value availableDevices ↔
      dev ∈ (Selection.ofValue value).select availableDevices) ↔
      ∀ dev ∈ availableDevices, ¬ (Selection.ofValue value).Shadowed availableDevices dev := by
  constructor
  · intro hsame dev hdev hshadow
    have hfound := (mem_resolvedDevices hdev).symm.trans ((hsame dev).trans mem_select)
    have hmatches := hshadow.1
    split at hfound <;> simp [hdev, hshadow, hmatches] at hfound
  · intro hvisible dev
    by_cases hdev : dev ∈ availableDevices
    · rw [mem_resolvedDevices hdev, mem_select, and_iff_right hdev,
        and_iff_left (hvisible dev hdev)]
    · refine iff_of_false (fun hfound => hdev (resolvedDevices_subset value _ hfound)) ?_
      intro hselected
      exact hdev (mem_select.mp hselected).1

/-- `_parse_NCCL_IB_HCA` returns the reference selection, without repetition, exactly when
no available device is shadowed: every device that matches a token equals one, or matches
a token that names no available device. -/
theorem parseNCCLIBHCA_iff (value : Text) {availableDevices : List Text}
    (hnodup : availableDevices.Nodup) (hlength : availableDevices.length ≤ 32) :
    ((parseNCCLIBHCA value availableDevices).Nodup ∧
      ∀ dev, dev ∈ parseNCCLIBHCA value availableDevices ↔
        dev ∈ referenceSelection value availableDevices) ↔
      ∀ dev ∈ availableDevices,
        ¬ (Selection.ofValue value).Shadowed availableDevices dev := by
  by_cases hvalue : Text.strip value = []
  · have hparse : parseNCCLIBHCA value availableDevices = availableDevices := by
      rw [parseNCCLIBHCA_of_strip_nil hvalue]
      exact List.take_of_length_le hlength
    refine iff_of_true ?_ (fun dev _ => not_shadowed_of_strip_nil hvalue _ dev)
    rw [hparse, referenceSelection, if_pos hvalue]
    exact ⟨hnodup, fun dev => Iff.rfl⟩
  · have hresolved := nodup_resolvedDevices value hnodup
    have hparse : parseNCCLIBHCA value availableDevices =
        resolvedDevices value availableDevices := by
      rw [parseNCCLIBHCA_of_strip_ne_nil hvalue]
      have hle := (List.subperm_of_subset hresolved
        (resolvedDevices_subset value availableDevices)).length_le
      exact List.take_of_length_le (hle.trans hlength)
    rw [hparse, referenceSelection, if_neg hvalue, and_iff_right hresolved]
    exact resolvedDevices_iff value availableDevices

theorem parseNCCLIBHCA_iff_two_names :
    ((parseNCCLIBHCA "^mlx5_0".toList ["mlx5_0".toList, "mlx4_0".toList]).Nodup ∧
      ∀ dev, dev ∈ parseNCCLIBHCA "^mlx5_0".toList ["mlx5_0".toList, "mlx4_0".toList] ↔
        dev ∈ referenceSelection "^mlx5_0".toList ["mlx5_0".toList, "mlx4_0".toList]) :=
  (parseNCCLIBHCA_iff _ (by decide) (by decide)).mpr (by decide +kernel)

/-- `mlx5_1` selects one device of two whose names it begins. -/
theorem parseNCCLIBHCA_misses :
    let availableDevices := ["mlx5_1".toList, "mlx5_10".toList]
    availableDevices.Nodup ∧
      "mlx5_10".toList ∈ referenceSelection "mlx5_1".toList availableDevices ∧
      "mlx5_10".toList ∉ parseNCCLIBHCA "mlx5_1".toList availableDevices := by
  decide +kernel

end CheckpointEngine.Devices
