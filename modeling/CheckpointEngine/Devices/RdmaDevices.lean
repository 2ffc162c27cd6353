/-
  `Devices.RdmaDevices`: the devices a rank can be given, and what an exclude list keeps
  from it.

  `_get_rdma_devices` falls back to all devices when `NCCL_IB_HCA` leaves none, also when
  it excludes them all.
-/
import CheckpointEngine.Devices.NcclIbHca

set_option autoImplicit false

namespace CheckpointEngine.Devices

open CheckpointEngine.Foundation

/-- The exceptions of the device utilities. -/
inductive DeviceError where
  | runtimeError (message : String)
  | assertionError (message : String)
  | valueError (message : String)
  | attributeError (message : String)
  | calledProcessError
  | indexError
  | zeroDivisionError
  deriving DecidableEq

/-- The environment variables that name devices. -/
structure Environ where
  psP2pStoreRdmaDevices : Option Text
  ncclIbHca : Option Text

/-- `_get_rdma_devices`, where `_ibv_get_device_list` returns `ibvDevices`. -/
def getRdmaDevices (environ : Environ) (ibvDevices : List Text) : List Text :=
  match environ.psP2pStoreRdmaDevices with
  | some (c :: rest) => Text.split ',' (c :: rest)
  | _ =>
    let parsed := parseNCCLIBHCA (environ.ncclIbHca.getD []) ibvDevices
    if parsed ≠ [] then parsed else ibvDevices

/-- `local_rank` is a remainder at every call, never negative. -/
def getMyRdmaDevice (localRank gpuCount : Nat) (devices : List Text) : Except DeviceError Text :=
  let count := devices.length
  if devices = [] then .error (.runtimeError "no rdma devices found")
  else if count ≤ gpuCount then
    if gpuCount % count ≠ 0 then
      .error (.assertionError
        s!"gpu count {gpuCount} should be divisible by rdma devices count {count}")
    else
      match devices[localRank / (gpuCount / count)]? with
      | some device => .ok device
      | none => .error .indexError
  else if gpuCount = 0 then .error .zeroDivisionError
  else if count % gpuCount ≠ 0 then
    .error (.assertionError
      s!"rdma devices count {count} should be divisible by gpu count {gpuCount}")
  else
    let devicePerRank := count / gpuCount
    .ok (Text.join ','
      ((devices.take ((localRank + 1) * devicePerRank)).drop (localRank * devicePerRank)))

/-- The devices whose names `_get_my_rdma_device` returns. -/
def assignedDevices (localRank gpuCount : Nat) (devices : List Text) : List Text :=
  if devices.length ≤ gpuCount then
    devices[localRank / (gpuCount / devices.length)]?.toList
  else
    (devices.take ((localRank + 1) * (devices.length / gpuCount))).drop
      (localRank * (devices.length / gpuCount))

theorem assignedDevices_subset (localRank gpuCount : Nat) (devices : List Text) :
    assignedDevices localRank gpuCount devices ⊆ devices := by
  intro dev hdev
  rw [assignedDevices] at hdev
  split at hdev
  · exact List.mem_of_getElem? (Option.mem_toList.mp hdev)
  · exact List.mem_of_mem_take (List.mem_of_mem_drop hdev)

theorem getMyRdmaDevice_eq_ok {localRank gpuCount : Nat} {devices : List Text} {choice : Text}
    (h : getMyRdmaDevice localRank gpuCount devices = .ok choice) :
    choice = Text.join ',' (assignedDevices localRank gpuCount devices) := by
  rw [getMyRdmaDevice] at h
  split at h
  · cases h
  · split at h
    · rename_i hle
      split at h
      · cases h
      · split at h
        · rename_i device hdevice
          cases h
          rw [assignedDevices, if_pos hle, hdevice, Option.toList_some, Text.join,
            List.intercalate_singleton]
        · cases h
    · rename_i hlt
      split at h
      · cases h
      · split at h
        · cases h
        · cases h
          rw [assignedDevices, if_neg hlt]

/-! ## Exclude lists -/

/-- The devices that an exclude list leaves in the code: those that match no token, and
the shadowed ones. -/
def Selection.unremoved (sel : Selection) (availableDevices : List Text) : List Text :=
  availableDevices.filter fun dev => ¬ sel.Matches dev ∨ sel.Shadowed availableDevices dev

theorem exclude_iff {value : Text} :
    (Selection.ofValue value).exclude = true ↔ ['^'] <+: Text.strip value := by
  rw [← List.isPrefixOf_iff_prefix, Selection.ofValue, Text.takeMark]
  cases hmark : List.isPrefixOf ['^'] (Text.strip value) <;> simp

/-- What begins with the mark still does after `strip`. -/
theorem startsWith_strip {value : Text} (h : ['^'] <+: value) : ['^'] <+: Text.strip value := by
  obtain ⟨rest, rfl⟩ := h
  rw [List.singleton_append, Text.strip, List.dropWhile_cons_of_neg (by decide)]
  induction rest using List.reverseRecOn with
  | nil => decide
  | append_singleton rest c ih =>
      rw [← List.cons_append]
      by_cases hspace : Text.isSpace c
      · rwa [List.rdropWhile_concat_pos _ _ _ hspace]
      · rw [List.rdropWhile_concat_neg _ _ _ hspace]
        exact ⟨rest ++ [c], rfl⟩

theorem resolvedDevices_of_exclude {value : Text} (availableDevices : List Text)
    (hexclude : (Selection.ofValue value).exclude = true) :
    resolvedDevices value availableDevices =
      (Selection.ofValue value).unremoved availableDevices := by
  rw [resolvedDevices, Selection.unremoved, if_pos hexclude]
  refine List.filter_congr fun dev hdev => ?_
  rw [decide_eq_decide, mem_resolve_ofValue_iff value hdev, not_and_or, Classical.not_not]

/-- A device that the code leaves matches a token exactly when it is shadowed. -/
theorem matches_iff_shadowed {sel : Selection} {availableDevices : List Text} {dev : Text}
    (hdev : dev ∈ sel.unremoved availableDevices) :
    sel.Matches dev ↔ sel.Shadowed availableDevices dev := by
  have hleft := of_decide_eq_true (List.mem_filter.mp hdev).2
  exact ⟨fun hmatches => hleft.resolve_left (not_not_intro hmatches), fun hshadow => hshadow.1⟩

theorem getRdmaDevices_of_exclude {value : Text} (ibvDevices : List Text)
    (hexclude : (Selection.ofValue value).exclude = true) :
    getRdmaDevices ⟨none, some value⟩ ibvDevices =
      if (Selection.ofValue value).unremoved ibvDevices ≠ [] then
        ((Selection.ofValue value).unremoved ibvDevices).take maxHcas
      else ibvDevices := by
  have hvalue : Text.strip value ≠ [] := by
    intro hnil
    have hstart := exclude_iff.mp hexclude
    rw [hnil] at hstart
    exact absurd (List.prefix_nil.mp hstart) (List.cons_ne_nil _ _)
  have hparse : parseNCCLIBHCA value ibvDevices =
      ((Selection.ofValue value).unremoved ibvDevices).take maxHcas := by
    rw [parseNCCLIBHCA_of_strip_ne_nil hvalue, resolvedDevices_of_exclude ibvDevices hexclude]
  have hempty : ((Selection.ofValue value).unremoved ibvDevices).take maxHcas = [] ↔
      (Selection.ofValue value).unremoved ibvDevices = [] := by
    rw [List.take_eq_nil_iff, or_iff_right (by decide)]
  change (if parseNCCLIBHCA value ibvDevices ≠ [] then parseNCCLIBHCA value ibvDevices
    else ibvDevices) = _
  simp only [hparse, ne_eq, hempty]

/-- No device that `_get_rdma_devices` returns, and none in a string that
`_get_my_rdma_device` chooses from them, matches a token of the value. -/
def Excludes (value : Text) (ibvDevices : List Text) : Prop :=
  let devices := getRdmaDevices ⟨none, some value⟩ ibvDevices
  (∀ dev ∈ devices, ¬ (Selection.ofValue value).Matches dev) ∧
    ∀ localRank gpuCount choice, getMyRdmaDevice localRank gpuCount devices = .ok choice →
      choice = Text.join ',' (assignedDevices localRank gpuCount devices) ∧
        ∀ dev ∈ assignedDevices localRank gpuCount devices,
          ¬ (Selection.ofValue value).Matches dev

theorem excludes_iff_returned {value : Text} {ibvDevices : List Text} :
    Excludes value ibvDevices ↔
      ∀ dev ∈ getRdmaDevices ⟨none, some value⟩ ibvDevices,
        ¬ (Selection.ofValue value).Matches dev := by
  refine ⟨fun h => h.1, fun h => ⟨h, ?_⟩⟩
  intro localRank gpuCount choice hchoice
  refine ⟨getMyRdmaDevice_eq_ok hchoice, fun dev hdev => h dev ?_⟩
  exact assignedDevices_subset localRank gpuCount _ hdev

/-- Before every shadowed device there are at least `maxHcas` devices that match no token. -/
def Selection.ShadowedLate (sel : Selection) (availableDevices : List Text) : Prop :=
  ∀ i (h : i < availableDevices.length), sel.Shadowed availableDevices availableDevices[i] →
    maxHcas ≤ (availableDevices.take i).countP fun dev => ¬ sel.Matches dev

instance (sel : Selection) (availableDevices : List Text) :
    Decidable (sel.ShadowedLate availableDevices) :=
  inferInstanceAs (Decidable (∀ i (_ : i < _), _ → _))

/-- Of the elements with `p` or `q`, the first `n` are without `q` exactly if each element with
`q` stands behind at least `n` with `p`. -/
theorem forall_mem_take_filter {α : Type} {p q : α → Prop} [DecidablePred p] [DecidablePred q]
    (hpq : ∀ x, q x → ¬ p x) (xs : List α) (n : Nat) :
    (∀ x ∈ (xs.filter fun x => p x ∨ q x).take n, ¬ q x) ↔
      ∀ i (h : i < xs.length), q xs[i] → n ≤ (xs.take i).countP fun x => p x := by
  induction xs generalizing n with
  | nil => simp
  | cons x rest ih =>
      have hsplit : (∀ i (h : i < (x :: rest).length), q (x :: rest)[i] →
            n ≤ ((x :: rest).take i).countP fun x => p x) ↔
          (q x → n ≤ 0) ∧ ∀ i (h : i < rest.length), q rest[i] →
            n ≤ ((x :: rest.take i).countP fun x => p x) := by
        constructor
        · intro h
          refine ⟨fun hx => ?_, fun i hi hq => h (i + 1) (Nat.succ_lt_succ hi) hq⟩
          simpa using h 0 (Nat.zero_lt_succ _) hx
        · rintro ⟨hx, hrest⟩ i hi hq
          cases i with
          | zero => exact (hx hq).trans (Nat.zero_le _)
          | succ i => exact hrest i (Nat.lt_of_succ_lt_succ hi) hq
      rw [hsplit]
      cases n with
      | zero => simp
      | succ n =>
          by_cases hp : p x
          · have hq : ¬ q x := fun hq => hpq x hq hp
            rw [List.filter_cons_of_pos (by simp [hp]), List.take_succ_cons,
              List.forall_mem_cons, and_iff_right hq, ih n, and_iff_right fun h => absurd h hq]
            simp [hp]
          · by_cases hq : q x
            · rw [List.filter_cons_of_pos (by simp [hq]), List.take_succ_cons,
                List.forall_mem_cons]
              refine iff_of_false (fun h => h.1 hq) fun h => ?_
              exact absurd (h.1 hq) (Nat.not_succ_le_zero n)
            · rw [List.filter_cons_of_neg (by simp [hp, hq]), ih (n + 1),
                and_iff_right fun h => absurd h hq]
              simp [hp]

/-- An exclude list is kept to exactly when there is no device, or it leaves one, and no
shadowed device comes before 32 devices that match no token. -/
theorem excludes_iff {value : Text} (hexclude : ['^'] <+: Text.strip value)
    (ibvDevices : List Text) :
    Excludes value ibvDevices ↔
      ibvDevices = [] ∨
        (∃ dev ∈ ibvDevices, ¬ (Selection.ofValue value).Matches dev) ∧
          (Selection.ofValue value).ShadowedLate ibvDevices := by
  have hlate : (Selection.ofValue value).ShadowedLate ibvDevices ↔
      ∀ dev ∈ ((Selection.ofValue value).unremoved ibvDevices).take maxHcas,
        ¬ (Selection.ofValue value).Shadowed ibvDevices dev :=
    (forall_mem_take_filter (fun _ hshadowed hfree => hfree hshadowed.1) ibvDevices
      maxHcas).symm
  rw [hlate]
  rw [excludes_iff_returned, getRdmaDevices_of_exclude ibvDevices (exclude_iff.mpr hexclude)]
  generalize Selection.ofValue value = sel
  by_cases hempty : sel.unremoved ibvDevices = []
  · -- every device matches, so the code falls back to devices that are all excluded
    have hall : ∀ dev ∈ ibvDevices, sel.Matches dev := by
      intro dev hdev
      have hremoved := List.filter_eq_nil_iff.mp hempty dev hdev
      rw [decide_eq_true_iff, not_or, Classical.not_not] at hremoved
      exact hremoved.1
    rw [if_neg (not_not_intro hempty)]
    constructor
    · intro hnone
      refine Or.inl (List.eq_nil_iff_forall_not_mem.mpr ?_)
      exact fun dev hdev => hnone dev hdev (hall dev hdev)
    · rintro (rfl | ⟨⟨dev, hdev, hfree⟩, -⟩)
      · exact fun dev hdev => absurd hdev List.not_mem_nil
      · exact absurd (hall dev hdev) hfree
  · rw [if_pos hempty]
    have hsame : ∀ dev ∈ (sel.unremoved ibvDevices).take maxHcas,
        (¬ sel.Matches dev ↔ ¬ sel.Shadowed ibvDevices dev) := fun dev hdev =>
      not_congr (matches_iff_shadowed (List.mem_of_mem_take hdev))
    have hsub : sel.unremoved ibvDevices ⊆ ibvDevices := List.filter_subset_self _
    obtain ⟨first, rest, hfirst⟩ := List.exists_cons_of_ne_nil hempty
    have hmem : first ∈ (sel.unremoved ibvDevices).take maxHcas := by
      rw [hfirst]
      exact List.mem_cons_self
    have hbound : first ∈ ibvDevices := hsub (List.mem_of_mem_take hmem)
    rw [or_iff_right (List.ne_nil_of_mem hbound)]
    constructor
    · intro hfree
      exact ⟨⟨first, hbound, hfree first hmem⟩,
        fun dev hdev => (hsame dev hdev).mp (hfree dev hdev)⟩
    · rintro ⟨-, hvisible⟩ dev hdev
      exact (hsame dev hdev).mpr (hvisible dev hdev)

theorem excludes_mlx5 :
    Excludes "^mlx5, =x".toList ["mlx5_0".toList, "mlx5_1".toList, "mlx4_0".toList] :=
  (excludes_iff (startsWith_strip (by decide)) _).mpr (by decide +kernel)

/-- A list that excludes all devices excludes none, and a list that excludes `mlx5_1`
leaves `mlx5_10`. -/
theorem excluded_devices_returned :
    ¬ Excludes "^mlx5".toList ["mlx5_0".toList, "mlx5_1".toList] ∧
      ¬ Excludes "^mlx5_1".toList ["mlx5_1".toList, "mlx5_10".toList, "mlx4_0".toList] ∧
      getMyRdmaDevice 0 8 (getRdmaDevices ⟨none, some "^mlx5".toList⟩
        ["mlx5_0".toList, "mlx5_1".toList]) = .ok "mlx5_0".toList := by
  simp only [excludes_iff_returned]
  decide +kernel

end CheckpointEngine.Devices
