/-
  `Devices.Allocation`: the devices that the ranks of a host are given.

  `_get_my_rdma_device` deals the devices out evenly over the GPU indices.  `P2PStore`
  takes a rank's index modulo the number of devices, `ParameterServer` modulo its own
  `gpu_count`.
-/
import Mathlib.Data.Nat.Count
import Mathlib.Order.Interval.Finset.Nat
import CheckpointEngine.Devices.RdmaDevices

set_option autoImplicit false

namespace CheckpointEngine.Devices

open CheckpointEngine.Foundation

/-- `DeviceManager.device_type`. -/
inductive DeviceType where
  | npu
  | xpu
  | cuda
  deriving DecidableEq

/-- `DeviceManager.transfer_engine_protocol`. -/
def DeviceType.transferEngineProtocol (deviceType : DeviceType) (hasEfaPci : Bool) : String :=
  match deviceType with
  | .npu => "ascend_direct"
  | .cuda | .xpu => if hasEfaPci then "efa" else "rdma"

/-- `DeviceManager.rdma_device`, where `device_count()` is `deviceCount` and
`_get_rdma_devices()` is `devices`. -/
def rdmaDevice (deviceType : DeviceType) (hasEfaPci : Bool) (deviceCount : Nat)
    (devices : List Text) (rank : Nat) : Except DeviceError Text :=
  if deviceType.transferEngineProtocol hasEfaPci = "ascend_direct" then .ok []
  else getMyRdmaDevice rank deviceCount devices

/-- `P2PStore.device`. -/
def P2PStore.device (deviceType : DeviceType) (hasEfaPci : Bool) (deviceCount : Nat)
    (devices : List Text) (rank : Nat) : Except DeviceError Text :=
  let gpuCount := deviceCount
  if gpuCount = 0 then .error .zeroDivisionError
  else
    let localRank := rank % gpuCount
    rdmaDevice deviceType hasEfaPci deviceCount devices localRank

/-- `ParameterServer._local_rank`, the index of the GPU that the rank is bound to. -/
def ParameterServer.localRank (gpuCount rank : Nat) : Nat := rank % gpuCount

/-! ## Dealing the devices out -/

theorem mem_take_drop {α : Type} {l : List α} {a b : Nat} {x : α} :
    x ∈ (l.take b).drop a ↔ ∃ j, a ≤ j ∧ j < b ∧ l[j]? = some x := by
  rw [List.mem_iff_getElem?]
  constructor
  · rintro ⟨j, hj⟩
    rw [List.getElem?_drop, List.getElem?_take] at hj
    split at hj
    · rename_i hlt
      exact ⟨a + j, Nat.le_add_right a j, hlt, hj⟩
    · cases hj
  · rintro ⟨j, ha, hb, hj⟩
    refine ⟨j - a, ?_⟩
    rw [List.getElem?_drop, List.getElem?_take, Nat.add_sub_cancel' ha, if_pos hb, hj]

theorem count_div_eq {b n k : Nat} (hb : 0 < b) (hk : k < n) :
    Nat.count (fun i => i / b = k) (n * b) = b := by
  have hblock : {i ∈ Finset.range (n * b) | i / b = k} = Finset.Ico (k * b) ((k + 1) * b) := by
    ext i
    rw [Finset.mem_filter, Finset.mem_range, Finset.mem_Ico, Nat.div_eq_iff hb]
    have hle : (k + 1) * b ≤ n * b := Nat.mul_le_mul_right b hk
    have hnext : (k + 1) * b = k * b + b := Nat.succ_mul k b
    omega
  rw [Nat.count_eq_card_filter_range, hblock, Nat.card_Ico, Nat.succ_mul]
  omega

theorem count_congr {p q : Nat → Prop} [DecidablePred p] [DecidablePred q] {n : Nat}
    (h : ∀ i < n, (p i ↔ q i)) : Nat.count p n = Nat.count q n := by
  rw [Nat.count_eq_card_filter_range, Nat.count_eq_card_filter_range]
  exact congrArg Finset.card (Finset.filter_congr fun i hi => h i (Finset.mem_range.mp hi))

theorem count_eq_self {n k : Nat} (hk : k < n) : Nat.count (fun i => k = i) n = 1 := by
  have hone : {i ∈ Finset.range n | k = i} = {k} := by
    ext i
    rw [Finset.mem_filter, Finset.mem_range, Finset.mem_singleton]
    omega
  rw [Nat.count_eq_card_filter_range, hone, Finset.card_singleton]

/-- What the code requires of the counts: one divides the other. -/
structure Divisible (deviceCount : Nat) (devices : List Text) : Prop where
  pos : 0 < deviceCount
  nonempty : devices ≠ []
  nodup : devices.Nodup
  divides : devices.length ∣ deviceCount ∨ deviceCount ∣ devices.length

/-- Device `k` is one of those of GPU index `i`. -/
def Serves (deviceCount count k i : Nat) : Prop :=
  if count ≤ deviceCount then i / (deviceCount / count) = k else k / (count / deviceCount) = i

instance (deviceCount count k i : Nat) : Decidable (Serves deviceCount count k i) :=
  inferInstanceAs (Decidable (if count ≤ deviceCount then i / (deviceCount / count) = k
    else k / (count / deviceCount) = i))

namespace Divisible

variable {deviceCount : Nat} {devices : List Text} (h : Divisible deviceCount devices)
include h

theorem count_pos : 0 < devices.length := List.length_pos_of_ne_nil h.nonempty

theorem mul_div (hle : devices.length ≤ deviceCount) :
    devices.length * (deviceCount / devices.length) = deviceCount := by
  refine Nat.mul_div_cancel' (h.divides.elim id fun hdvd => ?_)
  rw [Nat.le_antisymm hle (Nat.le_of_dvd h.count_pos hdvd)]

theorem mul_div' (hlt : ¬ devices.length ≤ deviceCount) :
    deviceCount * (devices.length / deviceCount) = devices.length := by
  refine Nat.mul_div_cancel' (h.divides.resolve_left fun hdvd => ?_)
  exact hlt (Nat.le_of_dvd h.pos hdvd)

theorem share_pos (hle : devices.length ≤ deviceCount) : 0 < deviceCount / devices.length :=
  Nat.div_pos hle h.count_pos

theorem share_pos' (hlt : ¬ devices.length ≤ deviceCount) : 0 < devices.length / deviceCount :=
  Nat.div_pos (Nat.le_of_not_le hlt) h.pos

theorem index_lt (hle : devices.length ≤ deviceCount) {i : Nat} (hi : i < deviceCount) :
    i / (deviceCount / devices.length) < devices.length :=
  Nat.div_lt_of_lt_mul (by rwa [Nat.mul_comm, h.mul_div hle])

theorem slice_le (hlt : ¬ devices.length ≤ deviceCount) {i : Nat} (hi : i < deviceCount) :
    (i + 1) * (devices.length / deviceCount) ≤ devices.length := by
  calc (i + 1) * (devices.length / deviceCount)
      ≤ deviceCount * (devices.length / deviceCount) := Nat.mul_le_mul_right _ hi
    _ = devices.length := h.mul_div' hlt

/-- The code finds a device for every GPU index. -/
theorem exists_choice {i : Nat} (hi : i < deviceCount) :
    ∃ choice, getMyRdmaDevice i deviceCount devices = .ok choice := by
  rw [getMyRdmaDevice, if_neg h.nonempty]
  by_cases hle : devices.length ≤ deviceCount
  · have hmod : deviceCount % devices.length = 0 :=
      Nat.mod_eq_zero_of_dvd ⟨_, (h.mul_div hle).symm⟩
    rw [if_pos hle, if_neg (not_not_intro hmod), List.getElem?_eq_getElem (h.index_lt hle hi)]
    exact ⟨_, rfl⟩
  · have hmod : devices.length % deviceCount = 0 :=
      Nat.mod_eq_zero_of_dvd ⟨_, (h.mul_div' hle).symm⟩
    rw [if_neg hle, if_neg h.pos.ne', if_neg (not_not_intro hmod)]
    exact ⟨_, rfl⟩

theorem length_assigned {i : Nat} (hi : i < deviceCount) :
    (assignedDevices i deviceCount devices).length = max 1 (devices.length / deviceCount) := by
  rw [assignedDevices]
  by_cases hle : devices.length ≤ deviceCount
  · have hsmall : devices.length / deviceCount ≤ 1 :=
      Nat.div_le_of_le_mul (by rwa [Nat.mul_one])
    rw [if_pos hle, List.getElem?_eq_getElem (h.index_lt hle hi), Option.toList_some,
      List.length_singleton, Nat.max_eq_left hsmall]
  · have hpos := h.share_pos' hle
    have hend := h.slice_le hle hi
    rw [if_neg hle, List.length_drop, List.length_take, Nat.min_eq_left hend, Nat.succ_mul,
      Nat.add_sub_cancel_left, Nat.max_eq_right hpos]

/-- The devices of a GPU index are those that serve it. -/
theorem mem_assigned_iff {i k : Nat} (hk : k < devices.length) :
    devices[k] ∈ assignedDevices i deviceCount devices ↔
      Serves deviceCount devices.length k i := by
  have hsame : ∀ j, devices[j]? = some devices[k] ↔ j = k := by
    intro j
    constructor
    · intro hj
      obtain ⟨hlt, hget⟩ := List.getElem?_eq_some_iff.mp hj
      exact (List.Nodup.getElem_inj_iff h.nodup).mp hget
    · rintro rfl
      exact List.getElem?_eq_getElem hk
  rw [assignedDevices, Serves]
  by_cases hle : devices.length ≤ deviceCount
  · rw [if_pos hle, if_pos hle, Option.mem_toList, hsame]
  · have hpos := h.share_pos' hle
    rw [if_neg hle, if_neg hle, mem_take_drop, Nat.div_eq_iff hpos]
    simp only [hsame, Nat.succ_mul]
    constructor
    · rintro ⟨j, ha, hb, rfl⟩
      omega
    · intro hbounds
      exact ⟨k, by omega, by omega, rfl⟩

theorem count_serves {k : Nat} (hk : k < devices.length) :
    Nat.count (Serves deviceCount devices.length k) deviceCount =
      max 1 (deviceCount / devices.length) := by
  by_cases hle : devices.length ≤ deviceCount
  · have hpos := h.share_pos hle
    have hcount := count_div_eq hpos hk
    rw [h.mul_div hle] at hcount
    have hsame := count_congr (p := Serves deviceCount devices.length k)
      (q := fun i => i / (deviceCount / devices.length) = k) (n := deviceCount)
      fun i _ => iff_of_eq (if_pos hle)
    rw [hsame, hcount, Nat.max_eq_right hpos]
  · have hpos := h.share_pos' hle
    have hlt : k / (devices.length / deviceCount) < deviceCount :=
      Nat.div_lt_of_lt_mul (by rwa [Nat.mul_comm, h.mul_div' hle])
    have hzero : deviceCount / devices.length = 0 := Nat.div_eq_of_lt (Nat.lt_of_not_le hle)
    have hsame := count_congr (p := Serves deviceCount devices.length k)
      (q := fun i => k / (devices.length / deviceCount) = i) (n := deviceCount)
      fun i _ => iff_of_eq (if_neg hle)
    rw [hsame, count_eq_self hlt, hzero]
    rfl

/-- Every device of a GPU index serves it. -/
theorem exists_serves {i : Nat} (hi : i < deviceCount) :
    ∃ k < devices.length, Serves deviceCount devices.length k i := by
  have hpos : 0 < (assignedDevices i deviceCount devices).length := by
    rw [h.length_assigned hi]
    exact Nat.le_max_left 1 _
  obtain ⟨dev, hdev⟩ := List.exists_mem_of_length_pos hpos
  obtain ⟨k, hk, hget⟩ := List.mem_iff_getElem.mp (assignedDevices_subset _ _ _ hdev)
  exact ⟨k, hk, (h.mem_assigned_iff hk).mp (hget ▸ hdev)⟩

end Divisible

/-- Every GPU index is given devices, equally many, and every device is given to equally
many GPU indices. -/
structure Even (deviceCount : Nat) (devices : List Text) : Prop where
  chosen : ∀ i < deviceCount, ∃ choice, getMyRdmaDevice i deviceCount devices = .ok choice ∧
    choice = Text.join ',' (assignedDevices i deviceCount devices)
  share : ∀ i < deviceCount, (assignedDevices i deviceCount devices).length =
    max 1 (devices.length / deviceCount)
  used : ∀ dev ∈ devices,
    Nat.count (fun i => dev ∈ assignedDevices i deviceCount devices) deviceCount =
      max 1 (deviceCount / devices.length)

theorem Divisible.even {deviceCount : Nat} {devices : List Text}
    (h : Divisible deviceCount devices) : Even deviceCount devices where
  chosen i hi := by
    obtain ⟨choice, hchoice⟩ := h.exists_choice hi
    exact ⟨choice, hchoice, getMyRdmaDevice_eq_ok hchoice⟩
  share i hi := h.length_assigned hi
  used dev hdev := by
    obtain ⟨k, hk, rfl⟩ := List.mem_iff_getElem.mp hdev
    rw [count_congr fun i _ => h.mem_assigned_iff hk]
    exact h.count_serves hk

/-! ## The device of a rank -/

/-- `P2PStore` chooses for the rank the devices of the GPU index that `ParameterServer`
binds it to. -/
def OwnDevice (hasEfaPci : Bool) (deviceCount gpuCount : Nat) (devices : List Text)
    (rank : Nat) : Prop :=
  ∃ choice, P2PStore.device .cuda hasEfaPci deviceCount devices rank = .ok choice ∧
    getMyRdmaDevice (ParameterServer.localRank gpuCount rank) deviceCount devices = .ok choice ∧
    assignedDevices (rank % deviceCount) deviceCount devices =
      assignedDevices (ParameterServer.localRank gpuCount rank) deviceCount devices

/-- Two GPU indices share their devices: they lie in the same block of indices, of the
size that `count` devices divide `deviceCount` into. -/
def SameBlock (deviceCount count i j : Nat) : Prop :=
  i / (deviceCount / count) = j / (deviceCount / count) ∧ (deviceCount < count → i = j)

theorem P2PStore.device_cuda {hasEfaPci : Bool} {deviceCount : Nat} {devices : List Text}
    (hpos : 0 < deviceCount) (rank : Nat) :
    P2PStore.device .cuda hasEfaPci deviceCount devices rank =
      getMyRdmaDevice (rank % deviceCount) deviceCount devices := by
  have hprotocol : DeviceType.cuda.transferEngineProtocol hasEfaPci ≠ "ascend_direct" := by
    cases hasEfaPci <;> decide
  rw [P2PStore.device, if_neg hpos.ne']
  exact if_neg hprotocol

theorem Divisible.assigned_eq_iff {deviceCount : Nat} {devices : List Text}
    (h : Divisible deviceCount devices) {i j : Nat} (hi : i < deviceCount) :
    assignedDevices i deviceCount devices = assignedDevices j deviceCount devices ↔
      SameBlock deviceCount devices.length i j := by
  constructor
  · intro heq
    obtain ⟨k, hk, hserves⟩ := h.exists_serves hi
    have hmem := (h.mem_assigned_iff hk).mpr hserves
    rw [heq] at hmem
    have hserves' := (h.mem_assigned_iff hk).mp hmem
    rw [Serves] at hserves hserves'
    by_cases hle : devices.length ≤ deviceCount
    · rw [if_pos hle] at hserves hserves'
      exact ⟨hserves.trans hserves'.symm, fun hlt => absurd hle (Nat.not_le_of_lt hlt)⟩
    · rw [if_neg hle] at hserves hserves'
      have hij : i = j := hserves.symm.trans hserves'
      exact ⟨by rw [hij], fun _ => hij⟩
  · rintro ⟨hblock, hsame⟩
    by_cases hle : devices.length ≤ deviceCount
    · rw [assignedDevices, assignedDevices, if_pos hle, if_pos hle, hblock]
    · rw [hsame (Nat.lt_of_not_le hle)]

/-- A rank gets the device of its own GPU exactly when its index among the host's devices
and the one among `gpu_count` lie in the same block; the devices are dealt out evenly in
any case. -/
theorem ownDevice_iff (hasEfaPci : Bool) {deviceCount gpuCount : Nat} {devices : List Text}
    (h : Divisible deviceCount devices) (hpos : 0 < gpuCount) (hle : gpuCount ≤ deviceCount)
    (rank : Nat) :
    (OwnDevice hasEfaPci deviceCount gpuCount devices rank ∧ Even deviceCount devices) ↔
      SameBlock deviceCount devices.length (rank % deviceCount) (rank % gpuCount) := by
  have hi : rank % deviceCount < deviceCount := Nat.mod_lt _ h.pos
  have hj : rank % gpuCount < deviceCount := (Nat.mod_lt _ hpos).trans_le hle
  rw [and_iff_left h.even, ← h.assigned_eq_iff hi]
  refine ⟨fun ⟨_, _, _, heq⟩ => heq, fun heq => ?_⟩
  obtain ⟨choice, hchoice, hnames⟩ := h.even.chosen _ hi
  obtain ⟨other, hother, hothers⟩ := h.even.chosen _ hj
  have hsame : other = choice := by rw [hothers, hnames, heq]
  refine ⟨choice, ?_, hsame ▸ hother, heq⟩
  rw [P2PStore.device_cuda h.pos, hchoice]

/-- The GPU indices 1 and 3 of rank 9 share the first of two devices. -/
theorem ownDevice_shared :
    OwnDevice false 8 6 ["mlx5_0".toList, "mlx5_1".toList] 9 ∧
      Even 8 ["mlx5_0".toList, "mlx5_1".toList] := by
  have hdivisible : Divisible 8 ["mlx5_0".toList, "mlx5_1".toList] :=
    ⟨by decide, List.cons_ne_nil _ _, by decide, Or.inl ⟨4, rfl⟩⟩
  have hblock : SameBlock 8 ["mlx5_0".toList, "mlx5_1".toList].length (9 % 8) (9 % 6) :=
    ⟨by decide, fun hlt => absurd hlt (by decide)⟩
  exact (ownDevice_iff false hdivisible (by decide) (by decide) 9).mpr hblock

/-- Rank 4 is bound to GPU 0 of eight, with `gpu_count` 4, and takes the device of GPU 4. -/
theorem ownDevice_fails :
    P2PStore.device .cuda false 8 ["mlx5_0".toList, "mlx5_1".toList] 4 = .ok "mlx5_1".toList ∧
      getMyRdmaDevice (ParameterServer.localRank 4 4) 8 ["mlx5_0".toList, "mlx5_1".toList] =
        .ok "mlx5_0".toList ∧
      ¬ OwnDevice false 8 4 ["mlx5_0".toList, "mlx5_1".toList] 4 := by
  have hchosen : P2PStore.device .cuda false 8 ["mlx5_0".toList, "mlx5_1".toList] 4 =
      .ok "mlx5_1".toList := by decide +kernel
  have hbound : getMyRdmaDevice (ParameterServer.localRank 4 4) 8
      ["mlx5_0".toList, "mlx5_1".toList] = .ok "mlx5_0".toList := by decide +kernel
  refine ⟨hchosen, hbound, ?_⟩
  rintro ⟨choice, hone, hother, -⟩
  rw [hchosen] at hone
  rw [hbound] at hother
  cases hone
  exact absurd hother (by decide +kernel)

/-- Some rank's index lies in another block than the index of its GPU. -/
theorem exists_not_sameBlock {deviceCount gpuCount : Nat} {devices : List Text}
    (h : Divisible deviceCount devices) (hpos : 0 < gpuCount) (hlt : gpuCount < deviceCount)
    (hmany : 1 < devices.length) :
    ∃ rank, ¬ SameBlock deviceCount devices.length (rank % deviceCount) (rank % gpuCount) := by
  by_cases hle : devices.length ≤ deviceCount
  · have hshare := h.share_pos hle
    have hmul := h.mul_div hle
    have hblock : 2 * (deviceCount / devices.length) ≤ deviceCount := by
      calc 2 * (deviceCount / devices.length)
          ≤ devices.length * (deviceCount / devices.length) := Nat.mul_le_mul_right _ hmany
        _ = deviceCount := hmul
    -- a multiple of `gpuCount` that is below `deviceCount` and not in the first block
    obtain ⟨n, hfirst, hbelow⟩ : ∃ n, deviceCount / devices.length ≤ n * gpuCount ∧
        n * gpuCount < deviceCount := by
      by_cases hsmall : deviceCount / devices.length ≤ gpuCount
      · exact ⟨1, by omega, by omega⟩
      · refine ⟨deviceCount / devices.length / gpuCount + 1, ?_, ?_⟩
        · have hsplit := Nat.div_add_mod' (deviceCount / devices.length) gpuCount
          have hrest := Nat.mod_lt (deviceCount / devices.length) hpos
          rw [Nat.succ_mul]
          omega
        · have hfloor := Nat.div_mul_le_self (deviceCount / devices.length) gpuCount
          rw [Nat.succ_mul]
          omega
    refine ⟨n * gpuCount, fun hsame => ?_⟩
    have hzero := hsame.1
    rw [Nat.mod_eq_of_lt hbelow, Nat.mul_mod_left, Nat.zero_div] at hzero
    exact absurd hzero (Nat.div_pos hfirst hshare).ne'
  · refine ⟨gpuCount, fun hsame => ?_⟩
    have hzero := hsame.2 (Nat.lt_of_not_le hle)
    rw [Nat.mod_eq_of_lt hlt, Nat.mod_self] at hzero
    exact absurd hzero hpos.ne'

/-- All ranks get the device of their own GPU exactly when `gpu_count` is the number of
devices of the host, or one RDMA device serves them all. -/
theorem ownDevice_all_iff (hasEfaPci : Bool) {deviceCount gpuCount : Nat} {devices : List Text}
    (h : Divisible deviceCount devices) (hpos : 0 < gpuCount) (hle : gpuCount ≤ deviceCount) :
    (∀ rank, OwnDevice hasEfaPci deviceCount gpuCount devices rank ∧ Even deviceCount devices) ↔
      gpuCount = deviceCount ∨ devices.length = 1 := by
  simp only [ownDevice_iff hasEfaPci h hpos hle]
  constructor
  · intro hall
    by_contra hneither
    obtain ⟨hne, hmany⟩ := not_or.mp hneither
    have hone := h.count_pos
    obtain ⟨rank, hrank⟩ := exists_not_sameBlock h hpos (by omega) (by omega)
    exact hrank (hall rank)
  · rintro (rfl | hone) rank
    · exact ⟨rfl, fun _ => rfl⟩
    · have hj : rank % gpuCount < deviceCount := (Nat.mod_lt _ hpos).trans_le hle
      rw [SameBlock, hone, Nat.div_one, Nat.div_eq_of_lt (Nat.mod_lt _ h.pos),
        Nat.div_eq_of_lt hj]
      exact ⟨rfl, fun hlt => absurd hlt (Nat.not_lt_of_le h.pos)⟩

end CheckpointEngine.Devices
