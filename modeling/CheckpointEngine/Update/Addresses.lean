/-
  `Update.Addresses`: the socket addresses of a server over all its updates,
  `_bind_zmq_socket` and the counter in `_detect_bucket_size` of
  `checkpoint_engine/ps.py`.

  Every rank counts its own binds, and an update sets the counters of its group to
  their maximum.  Updates may be of any groups, and a rank may fail at any point
  behind the `all_reduce`.  A step is the end of one `all_reduce` (for the whole
  group), a rank taking over the result, a rank binding, or a rank failing; a rank
  that is in no such stretch is free for its next update.
-/
import CheckpointEngine.Update.BucketSize
import CheckpointEngine.Foundation.Machine
import CheckpointEngine.Foundation.Numbering

set_option autoImplicit false

namespace CheckpointEngine.Update

open CheckpointEngine.Foundation

/-! ## Addresses -/

/-- `zmq_handle`. -/
def zmqHandle (deviceUuid : String) (zmqAddrCounter : Nat) : String :=
  "ipc://@checkpoint-engine-" ++ deviceUuid ++ "-" ++ toString zmqAddrCounter ++ ".sock"

/-- A bound socket: `_bind_zmq_socket` in one update on one rank. -/
structure Bound where
  update : Nat
  rank : Rank
  /-- `_zmq_addr_counter` at the bind -/
  value : Nat
  path : String
  socketPaths : List (String × String)
  deriving DecidableEq, Repr

/-- `_bind_zmq_socket`, but for the counter it leaves. -/
def bindZmqSocket (update : Nat) (rank : Rank) (deviceUuid : String)
    (globalDeviceUuids : List String) (zmqAddrCounter : Nat) : Bound where
  update
  rank
  value := zmqAddrCounter
  path := zmqHandle deviceUuid zmqAddrCounter
  socketPaths := globalDeviceUuids.map fun uid => (uid, zmqHandle uid zmqAddrCounter)

/-! ## Histories -/

/-- Where a rank is with respect to its counter. -/
inductive Stage where
  /-- in no update, before its `all_reduce` or behind its bind -/
  | outside
  /-- the `all_reduce` of the update has yielded the value, not yet taken over -/
  | reduced (update value : Nat)
  /-- the counter is the value, the socket not yet bound -/
  | detected (update : Nat)
  deriving DecidableEq, Repr

/-- The update a rank is in. -/
def Stage.update? : Stage → Option Nat
  | .outside => none
  | .reduced update _ | .detected update => some update

/-- All ranks, the updates so far with their groups and values in the order of their
`all_reduce`, and all sockets bound. -/
structure AddressState where
  zmqAddrCounter : Rank → Nat
  stage : Rank → Stage
  updates : List (List Rank × Nat)
  bound : List Bound

inductive AddressMove where
  /-- the `all_reduce` of a group, whose ranks have these amounts of memory -/
  | reduce (group : List Rank) (available : Rank → Nat)
  /-- the rank sets its counter to the result -/
  | takeOver (rank : Rank)
  /-- the rank binds its socket, knowing these devices -/
  | bind (rank : Rank) (globalDeviceUuids : List String)
  /-- the rank leaves the update with an exception -/
  | fail (rank : Rank)

/-- The value an `all_reduce` leaves for the counters of a group. -/
def AddressState.agreedValue (s : AddressState) (group : List Rank) (available : Rank → Nat) :
    Option Nat :=
  (allReduceMin (group.map fun rank =>
    (⟨available rank, s.zmqAddrCounter rank, []⟩ : Participant).tensor)).map
      fun tensor => (-tensor.2).toNat

def AddressState.step (deviceUuid : Rank → String) (s : AddressState) :
    AddressMove → Option AddressState
  | .reduce group available =>
      if ∀ rank ∈ group, s.stage rank = .outside then
        (s.agreedValue group available).map fun value =>
          { s with
            stage := fun rank =>
              if rank ∈ group then .reduced s.updates.length value else s.stage rank
            updates := s.updates ++ [(group, value)] }
      else none
  | .takeOver rank =>
      match s.stage rank with
      | .reduced update value =>
          some { s with
            zmqAddrCounter := Function.update s.zmqAddrCounter rank value
            stage := Function.update s.stage rank (.detected update) }
      | _ => none
  | .bind rank globalDeviceUuids =>
      match s.stage rank with
      | .detected update =>
          some { s with
            zmqAddrCounter :=
              Function.update s.zmqAddrCounter rank (s.zmqAddrCounter rank + 1)
            stage := Function.update s.stage rank .outside
            bound := s.bound ++
              [bindZmqSocket update rank (deviceUuid rank) globalDeviceUuids
                (s.zmqAddrCounter rank)] }
      | _ => none
  | .fail rank =>
      match s.stage rank with
      | .outside => none
      | _ => some { s with stage := Function.update s.stage rank .outside }

/-- All histories of servers with these devices, from their construction on. -/
def addresses (deviceUuid : Rank → String) : Machine AddressState AddressMove where
  init := ⟨fun _ => 0, fun _ => .outside, [], []⟩
  step := AddressState.step deviceUuid

/-- The group of an update. -/
def AddressState.group (s : AddressState) (update : Nat) : List Rank :=
  ((s.updates[update]?).map Prod.fst).getD []

/-- The value of an update. -/
def AddressState.value? (s : AddressState) (update : Nat) : Option Nat :=
  (s.updates[update]?).map Prod.snd

/-! ## One step -/

theorem agreedValue_ge {s : AddressState} {group : List Rank} {available : Rank → Nat}
    {value : Nat} (h : s.agreedValue group available = some value) :
    ∀ rank ∈ group, s.zmqAddrCounter rank ≤ value := by
  obtain ⟨tensor, htensor, rfl⟩ := Option.map_eq_some_iff.mp h
  have hmap : group.map (fun rank =>
      (⟨available rank, s.zmqAddrCounter rank, []⟩ : Participant).tensor) =
      (group.map fun rank =>
        (⟨available rank, s.zmqAddrCounter rank, []⟩ : Participant)).map
          Participant.tensor := by
    rw [List.map_map]
    rfl
  rw [hmap] at htensor
  obtain ⟨-, -, -, hcounter⟩ := allReduceMin_spec htensor
  intro rank hrank
  have hle := hcounter _ (List.mem_map_of_mem hrank)
  simp only at hle
  omega

/-- What a step can do. -/
inductive AddressChange (deviceUuid : Rank → String) (s : AddressState) : AddressState → Prop
  | reduce (group : List Rank) (value : Nat) (houtside : ∀ rank ∈ group, s.stage rank = .outside)
      (hvalue : ∀ rank ∈ group, s.zmqAddrCounter rank ≤ value) :
      AddressChange deviceUuid s
        { s with
          stage := fun rank =>
            if rank ∈ group then .reduced s.updates.length value else s.stage rank
          updates := s.updates ++ [(group, value)] }
  | takeOver (rank : Rank) (update value : Nat) (hstage : s.stage rank = .reduced update value) :
      AddressChange deviceUuid s
        { s with
          zmqAddrCounter := Function.update s.zmqAddrCounter rank value
          stage := Function.update s.stage rank (.detected update) }
  | bind (rank : Rank) (update : Nat) (globalDeviceUuids : List String)
      (hstage : s.stage rank = .detected update) :
      AddressChange deviceUuid s
        { s with
          zmqAddrCounter := Function.update s.zmqAddrCounter rank (s.zmqAddrCounter rank + 1)
          stage := Function.update s.stage rank .outside
          bound := s.bound ++
            [bindZmqSocket update rank (deviceUuid rank) globalDeviceUuids
              (s.zmqAddrCounter rank)] }
  | fail (rank : Rank) :
      AddressChange deviceUuid s { s with stage := Function.update s.stage rank .outside }

theorem AddressState.step_change {deviceUuid : Rank → String} {s t : AddressState}
    {move : AddressMove} (h : s.step deviceUuid move = some t) :
    AddressChange deviceUuid s t := by
  cases move with
  | reduce group available =>
      rw [AddressState.step, Option.ite_none_right_eq_some, Option.map_eq_some_iff] at h
      obtain ⟨houtside, value, hvalue, rfl⟩ := h
      exact .reduce group value houtside (agreedValue_ge hvalue)
  | takeOver rank =>
      cases hstage : s.stage rank with
      | reduced update value =>
          obtain rfl : _ = t := by simpa only [step, hstage, Option.some.injEq] using h
          exact .takeOver rank update value hstage
      | outside => simp [step, hstage] at h
      | detected update => simp [step, hstage] at h
  | bind rank globalDeviceUuids =>
      cases hstage : s.stage rank with
      | detected update =>
          obtain rfl : _ = t := by simpa only [step, hstage, Option.some.injEq] using h
          exact .bind rank update globalDeviceUuids hstage
      | outside => simp [step, hstage] at h
      | reduced update value => simp [step, hstage] at h
  | fail rank =>
      cases hstage : s.stage rank with
      | outside => simp [step, hstage] at h
      | reduced update value =>
          obtain rfl : _ = t := by simpa only [step, hstage, Option.some.injEq] using h
          exact .fail rank
      | detected update =>
          obtain rfl : _ = t := by simpa only [step, hstage, Option.some.injEq] using h
          exact .fail rank

/-! ## The invariant -/

/-- A rank is in the latest update that has it in its group, has bound nothing in it yet,
and is headed for that update's value; whatever it has bound lies below its counter and
below the values of all its later updates. -/
structure AddressInv (deviceUuid : Rank → String) (s : AddressState) : Prop where
  current : ∀ rank update, (s.stage rank).update? = some update →
    rank ∈ s.group update ∧ (∀ other, rank ∈ s.group other → other ≤ update) ∧
      ∀ b ∈ s.bound, b.rank = rank → b.update < update
  reduced : ∀ rank update value, s.stage rank = .reduced update value →
    s.value? update = some value ∧ s.zmqAddrCounter rank ≤ value
  detected : ∀ rank update, s.stage rank = .detected update →
    s.value? update = some (s.zmqAddrCounter rank)
  below : ∀ b ∈ s.bound, b.value < s.zmqAddrCounter b.rank
  record : ∀ b ∈ s.bound, s.value? b.update = some b.value ∧ b.rank ∈ s.group b.update ∧
    ∃ uids, b = bindZmqSocket b.update b.rank (deviceUuid b.rank) uids b.value
  fresh : ∀ update value, s.value? update = some value → ∀ rank ∈ s.group update,
    ∀ b ∈ s.bound, b.rank = rank → b.update < update → b.value < value
  ordered : s.bound.Pairwise fun b later => b.rank = later.rank → b.update < later.update

theorem addressInv_init (deviceUuid : Rank → String) :
    AddressInv deviceUuid (addresses deviceUuid).init := by
  constructor <;> simp [addresses, Stage.update?, AddressState.value?]

theorem lt_of_value? {s : AddressState} {update value : Nat} (h : s.value? update = some value) :
    update < s.updates.length := by
  obtain ⟨_, hget, -⟩ := Option.map_eq_some_iff.mp h
  exact (List.getElem?_eq_some_iff.mp hget).1

theorem lt_of_mem_group {s : AddressState} {update : Nat} {rank : Rank}
    (h : rank ∈ s.group update) : update < s.updates.length := by
  by_contra hge
  rw [AddressState.group, List.getElem?_eq_none_iff.mpr (by omega)] at h
  simp at h

theorem getElem?_updates (updates : List (List Rank × Nat)) (last : List Rank × Nat)
    (update : Nat) :
    (updates ++ [last])[update]? =
      if update = updates.length then some last else updates[update]? := by
  rcases Nat.lt_trichotomy update updates.length with hlt | rfl | hgt
  · rw [if_neg hlt.ne, List.getElem?_append_left hlt]
  · simp
  · rw [if_neg hgt.ne', List.getElem?_eq_none_iff.mpr (by simp; omega),
      List.getElem?_eq_none_iff.mpr (by omega)]

theorem group_reduce {s : AddressState} {stage : Rank → Stage} {group : List Rank}
    {value update : Nat} :
    AddressState.group { s with stage, updates := s.updates ++ [(group, value)] } update =
      if update = s.updates.length then group else s.group update := by
  unfold AddressState.group
  rw [getElem?_updates]
  split <;> rfl

theorem value?_reduce {s : AddressState} {stage : Rank → Stage} {group : List Rank}
    {value update : Nat} :
    AddressState.value? { s with stage, updates := s.updates ++ [(group, value)] } update =
      if update = s.updates.length then some value else s.value? update := by
  unfold AddressState.value?
  rw [getElem?_updates]
  split <;> rfl

/-- An `all_reduce` takes its ranks into a new update, with a value above all they have
bound. -/
theorem AddressInv.reduce {deviceUuid : Rank → String} {s : AddressState}
    (h : AddressInv deviceUuid s) {group : List Rank} {value : Nat}
    (hvalue : ∀ rank ∈ group, s.zmqAddrCounter rank ≤ value) :
    AddressInv deviceUuid
      { s with
        stage := fun rank =>
          if rank ∈ group then .reduced s.updates.length value else s.stage rank
        updates := s.updates ++ [(group, value)] } where
  current := by
    intro rank update hupdate
    simp only [group_reduce] at hupdate ⊢
    by_cases hrank : rank ∈ group
    · rw [if_pos hrank] at hupdate
      obtain rfl := Option.some.inj hupdate
      refine ⟨by rwa [if_pos rfl], fun other hother => ?_, fun b hb _ => ?_⟩
      · by_cases heq : other = s.updates.length
        · exact heq.le
        · rw [if_neg heq] at hother
          exact (lt_of_mem_group hother).le
      · exact lt_of_value? (h.record b hb).1
    · rw [if_neg hrank] at hupdate
      obtain ⟨hmem, hlatest, hbound⟩ := h.current rank update hupdate
      refine ⟨by rwa [if_neg (lt_of_mem_group hmem).ne], fun other hother => ?_, hbound⟩
      by_cases heq : other = s.updates.length
      · rw [if_pos heq] at hother
        exact absurd hother hrank
      · rw [if_neg heq] at hother
        exact hlatest other hother
  reduced := by
    intro rank update value' hstage
    simp only [value?_reduce] at hstage ⊢
    by_cases hrank : rank ∈ group
    · rw [if_pos hrank] at hstage
      obtain ⟨rfl, rfl⟩ := Stage.reduced.inj hstage
      exact ⟨if_pos rfl, hvalue rank hrank⟩
    · rw [if_neg hrank] at hstage
      obtain ⟨hvalue', hle⟩ := h.reduced rank update value' hstage
      exact ⟨by rw [if_neg (lt_of_value? hvalue').ne, hvalue'], hle⟩
  detected := by
    intro rank update hstage
    simp only [value?_reduce] at hstage ⊢
    by_cases hrank : rank ∈ group
    · rw [if_pos hrank] at hstage
      cases hstage
    · rw [if_neg hrank] at hstage
      have hvalue' := h.detected rank update hstage
      rw [if_neg (lt_of_value? hvalue').ne, hvalue']
  below := h.below
  record := by
    intro b hb
    obtain ⟨hvalue', hmem, hrecord⟩ := h.record b hb
    have hne := (lt_of_value? hvalue').ne
    exact ⟨by rw [value?_reduce, if_neg hne, hvalue'], by rwa [group_reduce, if_neg hne],
      hrecord⟩
  fresh := by
    intro update value' hvalue' rank hrank b hb hb_rank hlt
    rw [value?_reduce] at hvalue'
    rw [group_reduce] at hrank
    by_cases hnew : update = s.updates.length
    · -- the new update: what its ranks have bound is below their counters
      rw [if_pos hnew] at hvalue' hrank
      obtain rfl := Option.some.inj hvalue'
      exact (h.below b hb).trans_le (hb_rank ▸ hvalue rank hrank)
    · rw [if_neg hnew] at hvalue' hrank
      exact h.fresh update value' hvalue' rank hrank b hb hb_rank hlt
  ordered := h.ordered

/-- A rank that takes the value over has it as its counter. -/
theorem AddressInv.takeOver {deviceUuid : Rank → String} {s : AddressState}
    (h : AddressInv deviceUuid s) {rank : Rank} {update value : Nat}
    (hstage : s.stage rank = .reduced update value) :
    AddressInv deviceUuid
      { s with
        zmqAddrCounter := Function.update s.zmqAddrCounter rank value
        stage := Function.update s.stage rank (.detected update) } := by
  obtain ⟨hvalue, hle⟩ := h.reduced rank update value hstage
  have hcounter : ∀ r, s.zmqAddrCounter r ≤ Function.update s.zmqAddrCounter rank value r := by
    intro r
    by_cases hr : r = rank
    · subst hr
      rwa [Function.update_self]
    · rw [Function.update_of_ne hr]
  refine ⟨?_, ?_, ?_, ?_, h.record, h.fresh, h.ordered⟩
  · intro r u hu
    by_cases hr : r = rank
    · subst hr
      simp only [Function.update_self] at hu
      exact h.current r u (by rw [hstage]; exact hu)
    · simp only [Function.update_of_ne hr] at hu
      exact h.current r u hu
  · intro r u v hr_stage
    by_cases hr : r = rank
    · subst hr
      simp at hr_stage
    · simp only [Function.update_of_ne hr] at hr_stage ⊢
      exact h.reduced r u v hr_stage
  · intro r u hr_stage
    by_cases hr : r = rank
    · subst hr
      simp only [Function.update_self] at hr_stage ⊢
      obtain rfl := Stage.detected.inj hr_stage
      exact hvalue
    · simp only [Function.update_of_ne hr] at hr_stage ⊢
      exact h.detected r u hr_stage
  · exact fun b hb => (h.below b hb).trans_le (hcounter b.rank)

/-- A rank that leaves an update leaves everything else as it is. -/
theorem AddressInv.leave {deviceUuid : Rank → String} {s : AddressState}
    (h : AddressInv deviceUuid s) (rank : Rank) :
    AddressInv deviceUuid { s with stage := Function.update s.stage rank .outside } := by
  refine ⟨?_, ?_, ?_, h.below, h.record, h.fresh, h.ordered⟩
  · intro r u hu
    by_cases hr : r = rank
    · subst hr
      simp [Stage.update?] at hu
    · simp only [Function.update_of_ne hr] at hu
      exact h.current r u hu
  · intro r u v hr_stage
    by_cases hr : r = rank
    · subst hr
      simp at hr_stage
    · simp only [Function.update_of_ne hr] at hr_stage
      exact h.reduced r u v hr_stage
  · intro r u hr_stage
    by_cases hr : r = rank
    · subst hr
      simp at hr_stage
    · simp only [Function.update_of_ne hr] at hr_stage
      exact h.detected r u hr_stage

/-- A rank that binds uses the value of its update, for the first time in it. -/
theorem AddressInv.bind {deviceUuid : Rank → String} {s : AddressState}
    (h : AddressInv deviceUuid s) {rank : Rank} {update : Nat} (uids : List String)
    (hstage : s.stage rank = .detected update) :
    AddressInv deviceUuid
      { s with
        zmqAddrCounter := Function.update s.zmqAddrCounter rank (s.zmqAddrCounter rank + 1)
        stage := Function.update s.stage rank .outside
        bound := s.bound ++
          [bindZmqSocket update rank (deviceUuid rank) uids (s.zmqAddrCounter rank)] } := by
  have hvalue := h.detected rank update hstage
  obtain ⟨hmem, hlatest, hbound⟩ := h.current rank update (by rw [hstage]; rfl)
  have hleft := h.leave rank
  have hother : ∀ r u, (Function.update s.stage rank .outside r).update? = some u → r ≠ rank := by
    rintro r u hu rfl
    simp [Stage.update?] at hu
  refine ⟨?_, ?_, ?_, ?_, ?_, ?_, ?_⟩
  · intro r u hu
    obtain ⟨hmem', hlatest', hbound'⟩ := hleft.current r u hu
    refine ⟨hmem', hlatest', fun b hb hb_rank => ?_⟩
    rcases List.mem_append.mp hb with hb | hb
    · exact hbound' b hb hb_rank
    · obtain rfl := List.mem_singleton.mp hb
      exact absurd hb_rank.symm (hother r u hu)
  · intro r u v hr
    have hne := hother r u (congrArg Stage.update? hr)
    simp only [Function.update_of_ne hne] at hr ⊢
    exact h.reduced r u v hr
  · intro r u hr
    have hne := hother r u (congrArg Stage.update? hr)
    simp only [Function.update_of_ne hne] at hr ⊢
    exact h.detected r u hr
  · intro b hb
    rcases List.mem_append.mp hb with hb | hb
    · have hbelow := h.below b hb
      show b.value < Function.update s.zmqAddrCounter rank (s.zmqAddrCounter rank + 1) b.rank
      by_cases hb_rank : b.rank = rank
      · subst hb_rank
        rw [Function.update_self]
        omega
      · rwa [Function.update_of_ne hb_rank]
    · obtain rfl := List.mem_singleton.mp hb
      simp [bindZmqSocket]
  · intro b hb
    rcases List.mem_append.mp hb with hb | hb
    · exact h.record b hb
    · obtain rfl := List.mem_singleton.mp hb
      exact ⟨hvalue, hmem, uids, rfl⟩
  · intro u v hv r hr b hb hb_rank hlt
    rcases List.mem_append.mp hb with hb | hb
    · exact h.fresh u v hv r hr b hb hb_rank hlt
    · -- the rank is in no later update than the one it binds in
      obtain rfl := List.mem_singleton.mp hb
      obtain rfl : rank = r := hb_rank
      have := hlatest u hr
      exact absurd hlt (by simpa [bindZmqSocket] using this)
  · rw [List.pairwise_append]
    refine ⟨h.ordered, List.pairwise_singleton _ _, fun b hb later hlater hb_rank => ?_⟩
    obtain rfl := List.mem_singleton.mp hlater
    exact hbound b hb hb_rank

theorem addressInv {deviceUuid : Rank → String} {s : AddressState}
    (h : (addresses deviceUuid).Reachable s) : AddressInv deviceUuid s := by
  refine h.invariant (addressInv_init deviceUuid) ?_
  intro s move t _ hinv hstep
  cases AddressState.step_change hstep with
  | reduce group value _ hvalue => exact hinv.reduce hvalue
  | takeOver rank update value hstage => exact hinv.takeOver hstage
  | bind rank update uids hstage => exact hinv.bind uids hstage
  | fail rank => exact hinv.leave rank

/-! ## Agreement -/

/-- The devices of two servers. -/
def twoDevices (rank : Rank) : String := if rank = 0 then "GPU-0" else "GPU-1"

end CheckpointEngine.Update
