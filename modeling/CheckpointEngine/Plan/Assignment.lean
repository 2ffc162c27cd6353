/-
  `Plan.Assignment`: what the `while` loop of `_assign_receiver_ranks` amounts to.

  Its passes are the rounds of the flattened matrix, and a receiver is given one
  place of every pass that reaches it.  The matrix is read column by column, one
  row a device, so passes only get shorter: the `i`-th bucket of every receiver is
  from pass `i`, and a pass holds no device twice.
-/
import CheckpointEngine.Plan.Tiling
import CheckpointEngine.Plan.Receivers
import CheckpointEngine.Foundation.Rounds
import Mathlib.Data.List.Dedup
import Mathlib.Data.Option.Basic

set_option autoImplicit false

namespace CheckpointEngine.Plan

open CheckpointEngine.Foundation

variable {T : Type}

/-- The buckets a receiver is given, with their owners, in order. -/
def receivedBy (receiver : Rank) (assigned : List (Rank × Rank × T)) : List (Rank × T) :=
  (assigned.filter (·.1 = receiver)).map Prod.snd

/-! ## The passes are rounds -/

/-- The devices of a pass are new and distinct, and it stops for want of a receiver
or at a device it has already. -/
theorem assignRound_devices (device : Rank → String) (receivers : List Rank) :
    ∀ (occupied : List String) (rest : List (Rank × T)),
      let pass := (assignRound device receivers occupied rest).1.map fun x => device x.2.1
      pass.length ≤ receivers.length ∧ pass.Nodup ∧ (∀ d ∈ pass, d ∉ occupied) ∧
        (pass.length = receivers.length ∨
          ∀ b ∈ (assignRound device receivers occupied rest).2.head?,
            device b.1 ∈ pass ∨ device b.1 ∈ occupied) := by
  induction receivers with
  | nil => intro occupied rest; simp [assignRound]
  | cons receiver receivers ih =>
      intro occupied rest
      cases rest with
      | nil => simp [assignRound]
      | cons bucket rest =>
          obtain ⟨owner, bucket⟩ := bucket
          by_cases hoccupied : device owner ∈ occupied
          · simp [assignRound, hoccupied]
          · obtain ⟨hlength, hnodup, hnew, hstop⟩ := ih (device owner :: occupied) rest
            simp only [assignRound, if_neg hoccupied, List.map_cons, List.length_cons,
              List.nodup_cons]
            refine ⟨Nat.succ_le_succ hlength, ⟨?_, hnodup⟩, ?_, ?_⟩
            · exact fun hmem => hnew _ hmem List.mem_cons_self
            · intro d hd
              rcases List.mem_cons.mp hd with rfl | hd
              · exact hoccupied
              · exact fun hin => hnew d hd (List.mem_cons_of_mem _ hin)
            · refine hstop.imp (congrArg (· + 1)) fun h b hb => ?_
              rcases h b hb with hpass | hin
              · exact .inl (List.mem_cons_of_mem _ hpass)
              · rcases List.mem_cons.mp hin with heq | hin
                · exact .inl (List.mem_cons.mpr (.inl heq))
                · exact .inr hin

theorem assignRound_isRound (device : Rank → String) (receivers : List Rank)
    (rest : List (Rank × T)) :
    IsRound (fun b => device b.1) receivers.length rest
      ((assignRound device receivers [] rest).1.map Prod.snd)
      (assignRound device receivers [] rest).2 := by
  obtain ⟨hlength, hnodup, -, hstop⟩ := assignRound_devices device receivers [] rest
  have hmap : ((assignRound device receivers [] rest).1.map Prod.snd).map
      (fun b => device b.1) =
        (assignRound device receivers [] rest).1.map fun x => device x.2.1 := by
    rw [List.map_map]
    rfl
  exact {
    split := assignRound_split device receivers [] rest
    length_le := by simpa using hlength
    nodup := by rwa [hmap]
    full := by
      rw [hmap]
      simpa using hstop }

/-- The loop deals out rounds to the receivers. -/
theorem assignWhile_rounds {device : Rank → String} {receivers : List Rank} :
    ∀ {passes : Nat} {rest : List (Rank × T)} {out : List (Rank × Rank × T)},
      assignWhile device receivers passes rest = some out →
        ∃ rounds, Rounds (fun b => device b.1) receivers.length rest rounds ∧
          out = rounds.flatMap receivers.zip := by
  intro passes
  induction passes with
  | zero =>
      intro rest out h
      cases rest with
      | nil => exact ⟨[], .nil, by simpa [assignWhile] using h.symm⟩
      | cons bucket rest => simp [assignWhile] at h
  | succ passes ih =>
      intro rest out h
      cases rest with
      | nil => exact ⟨[], .nil, by simpa [assignWhile] using h.symm⟩
      | cons bucket rest =>
          rw [assignWhile, Option.map_eq_some_iff] at h
          obtain ⟨tail, htail, rfl⟩ := h
          obtain ⟨rounds, hrounds, rfl⟩ := ih htail
          refine ⟨_ :: rounds, .cons (assignRound_isRound device receivers _) hrounds, ?_⟩
          rw [List.flatMap_cons, ← assignRound_zip]

/-! ## No device is read twice at a time -/

theorem flattenedBuckets_roundRobin (remoteTopo : Topology) (buckets : List (Rank × T)) :
    RoundRobin ((flattenedBuckets remoteTopo buckets).map fun b => deviceOf remoteTopo b.1) :=
  groupBy_roundRobin (fun b : Rank × T => deviceOf remoteTopo b.1) buckets

/-- A finished assignment is a finished loop. -/
theorem assignReceiverRanks_returned {buckets : List (Rank × T)}
    {localTopo remoteTopo : Topology} {out : List (Rank × Rank × T)}
    (hremote : ∀ b ∈ buckets, (rankToRdmaDevice remoteTopo b.1).isSome)
    (h : assignReceiverRanks buckets localTopo remoteTopo = .ok (some out)) :
    ∃ receivers, receiversFor buckets localTopo remoteTopo = .ok receivers ∧
      assignWhile (deviceOf remoteTopo) receivers (flattenedBuckets remoteTopo buckets).length
        (flattenedBuckets remoteTopo buckets) = some out := by
  by_cases hbuckets : buckets = []
  · subst hbuckets
    refine ⟨[], ?_, Except.ok.inj h⟩
    simp [receiversFor, receiverList, groupBy]
    rfl
  · rw [assignReceiverRanks_eq hbuckets hremote] at h
    cases hreceivers : receiversFor buckets localTopo remoteTopo with
    | error e => rw [hreceivers] at h; cases h
    | ok receivers =>
        rw [hreceivers] at h
        exact ⟨receivers, rfl, Except.ok.inj h⟩

/-- One rank of each of several disjoint groups: no rank twice. -/
theorem nodup_of_forall₂ {receivers : List Rank} {groups : List (List Rank)}
    (hmem : List.Forall₂ (fun receiver group => receiver ∈ group) receivers groups)
    (hdisjoint : groups.Pairwise List.Disjoint) : receivers.Nodup := by
  induction hmem with
  | nil => exact List.nodup_nil
  | @cons receiver group receivers groups hhead htail ih =>
      obtain ⟨hgroup, hgroups⟩ := List.pairwise_cons.mp hdisjoint
      refine List.nodup_cons.mpr ⟨fun hin => ?_, ih hgroups⟩
      obtain ⟨other, hother, hin⟩ := exists_of_forall₂ htail hin
      exact hgroup other hother hhead hin

/-- The buckets that two receivers have at the same place of their lists, which they
copy at the same time, are read through different devices. -/
def ReadsApart (remoteTopo : Topology) (assigned : List (Rank × Rank × T)) : Prop :=
  ∀ (i : Nat) (receiver other : Rank) (b b' : Rank × T), receiver ≠ other →
    (receivedBy receiver assigned)[i]? = some b → (receivedBy other assigned)[i]? = some b' →
      rankToRdmaDevice remoteTopo b.1 ≠ rankToRdmaDevice remoteTopo b'.1

/-- A receiver's list holds one place of every round that reaches it. -/
theorem receivedBy_dealt {receivers : List Rank} (hnodup : receivers.Nodup) {j : Nat}
    {receiver : Rank} (hj : receivers[j]? = some receiver) (rounds : List (List (Rank × T))) :
    receivedBy receiver (rounds.flatMap receivers.zip) = column rounds j :=
  dealt_eq_column hnodup hj rounds

/-- What a rank is given at all, it is given as a receiver. -/
theorem exists_place_of_receivedBy {receivers : List Rank} {rounds : List (List (Rank × T))}
    {receiver : Rank} {b : Rank × T}
    (hb : b ∈ receivedBy receiver (rounds.flatMap receivers.zip)) :
    ∃ j : Nat, receivers[j]? = some receiver := by
  obtain ⟨x, hx, -⟩ := List.mem_map.mp hb
  obtain ⟨hx, hreceiver⟩ := List.mem_filter.mp hx
  obtain ⟨round, -, hzip⟩ := List.mem_flatMap.mp hx
  have hmem : x.1 ∈ receivers := (List.of_mem_zip hzip).1
  rw [of_decide_eq_true hreceiver] at hmem
  exact List.getElem?_of_mem hmem

/-- Dealing out rounds that only get shorter keeps the devices apart: the `i`-th
bucket of every receiver is from round `i`. -/
theorem readsApart_of_rounds {remoteTopo : Topology} {rest : List (Rank × T)}
    {receivers : List Rank} (hnodup : receivers.Nodup) {rounds : List (List (Rank × T))}
    (hrounds : Rounds (fun b => deviceOf remoteTopo b.1) receivers.length rest rounds)
    (hlengths : rounds.Pairwise fun earlier later => later.length ≤ earlier.length) :
    ReadsApart remoteTopo (rounds.flatMap receivers.zip) := by
  intro i receiver other b b' hne hb hb' hdevice
  obtain ⟨j, hj⟩ := exists_place_of_receivedBy (List.mem_of_getElem? hb)
  obtain ⟨j', hj'⟩ := exists_place_of_receivedBy (List.mem_of_getElem? hb')
  rw [receivedBy_dealt hnodup hj, column_getElem? hlengths] at hb
  rw [receivedBy_dealt hnodup hj', column_getElem? hlengths] at hb'
  obtain ⟨round, hround, hb⟩ := Option.bind_eq_some_iff.mp hb
  obtain ⟨round', hround', hb'⟩ := Option.bind_eq_some_iff.mp hb'
  obtain rfl : round = round' := Option.some.inj (hround.symm.trans hround')
  -- two places of one round with the same device are the same place
  obtain ⟨-, hdevices⟩ := hrounds.of_mem (List.mem_of_getElem? hround)
  have hlt : j < (round.map fun b => deviceOf remoteTopo b.1).length := by
    rw [List.length_map]
    exact (List.getElem?_eq_some_iff.mp hb).1
  have hsame : (round.map fun b => deviceOf remoteTopo b.1)[j]? =
      (round.map fun b => deviceOf remoteTopo b.1)[j']? := by
    rw [List.getElem?_map, List.getElem?_map, hb, hb']
    simp only [Option.map_some, deviceOf, hdevice]
  obtain rfl : j = j' := (List.getElem?_inj hlt hdevices).mp hsame
  exact hne (Option.some.inj (hj.symm.trans hj'))

/-- The schedule never makes two receivers read through one device at the same
time, and the receivers' lists only get shorter along `receiver_list`. -/
theorem assignReceiverRanks_apart {buckets : List (Rank × T)} {localTopo remoteTopo : Topology}
    (hremote : ∀ b ∈ buckets, (rankToRdmaDevice remoteTopo b.1).isSome)
    (hgroups : ∀ group ∈ localTopo, group.2 ≠ [])
    (hdisjoint : localTopo.Pairwise fun group other => group.2.Disjoint other.2) :
    ∃ receivers, receiversFor buckets localTopo remoteTopo = .ok receivers ∧
      (localTopo ≠ [] →
        ∃ out, assignReceiverRanks buckets localTopo remoteTopo = .ok (some out)) ∧
      ∀ out, assignReceiverRanks buckets localTopo remoteTopo = .ok (some out) →
        ReadsApart remoteTopo out ∧
          receivers.Pairwise fun receiver later =>
            (receivedBy later out).length ≤ (receivedBy receiver out).length := by
  obtain ⟨receivers, hok, hmem⟩ := receiverList_forall₂ hgroups
    (min localTopo.length
      (groupBy (fun b : Rank × T => deviceOf remoteTopo b.1) id buckets).length)
  refine ⟨receivers, hok, ?_, ?_⟩
  · intro hlocal
    by_cases hbuckets : buckets = []
    · subst hbuckets
      exact ⟨[], rfl⟩
    · have hne := receivers_ne_nil hmem hlocal (groups_pos remoteTopo hbuckets)
      obtain ⟨out, hout⟩ := assignWhile_total (deviceOf remoteTopo) hne _
        (flattenedBuckets remoteTopo buckets) (Nat.le_refl _)
      refine ⟨out, ?_⟩
      rw [assignReceiverRanks_eq hbuckets hremote, receiversFor, hok, ← hout]
      rfl
  · intro out hout
    have hnodup : receivers.Nodup := by
      refine nodup_of_forall₂ hmem (List.Pairwise.sublist (List.take_sublist _ _) ?_)
      exact List.pairwise_map.mpr hdisjoint
    obtain ⟨receivers', hok', hwhile⟩ := assignReceiverRanks_returned hremote hout
    obtain rfl : receivers = receivers' := Except.ok.inj (hok.symm.trans hok')
    obtain ⟨rounds, hrounds, rfl⟩ := assignWhile_rounds hwhile
    have hlengths := hrounds.lengths (flattenedBuckets_roundRobin remoteTopo buckets)
    refine ⟨readsApart_of_rounds hnodup hrounds hlengths, ?_⟩
    rw [List.pairwise_iff_getElem]
    intro j j' hj hj' hlt
    rw [receivedBy_dealt hnodup (List.getElem?_eq_getElem hj),
      receivedBy_dealt hnodup (List.getElem?_eq_getElem hj')]
    exact length_column_antitone rounds hlt.le

/-- Ragged rows: three buckets behind one device, one behind another. -/
theorem assignReceiverRanks_apart_ragged :
    ∃ receivers, receiversFor [(0, "a"), (1, "b"), (2, "c"), (0, "d")]
        [("m0", [0, 1]), ("m1", [2])] [("d0", [0, 1]), ("d1", [2])] = .ok receivers ∧
      (([("m0", [0, 1]), ("m1", [2])] : Topology) ≠ [] →
        ∃ out, assignReceiverRanks [(0, "a"), (1, "b"), (2, "c"), (0, "d")]
          [("m0", [0, 1]), ("m1", [2])] [("d0", [0, 1]), ("d1", [2])] = .ok (some out)) ∧
      ∀ out, assignReceiverRanks [(0, "a"), (1, "b"), (2, "c"), (0, "d")]
          [("m0", [0, 1]), ("m1", [2])] [("d0", [0, 1]), ("d1", [2])] = .ok (some out) →
        ReadsApart [("d0", [0, 1]), ("d1", [2])] out ∧
          receivers.Pairwise fun receiver later =>
            (receivedBy later out).length ≤ (receivedBy receiver out).length :=
  assignReceiverRanks_apart (by decide) (by decide) (by simp)

/-! ## The plan for a group of ranks -/

/-- The device groups of the local topology that have a rank of the update. -/
def meetingGroups (localTopo : Topology) (ranks : List Rank) : Topology :=
  localTopo.filter fun group => group.2.any (· ∈ ranks)

theorem length_actualLocalTopo (localTopo : Topology) (ranks : List Rank) :
    (actualLocalTopo localTopo ranks).length = (meetingGroups localTopo ranks).length := by
  unfold actualLocalTopo meetingGroups
  rw [List.length_filterMap_eq_countP, ← List.countP_eq_length_filter]
  refine List.countP_congr fun group _ => ?_
  have hany : (group.2.filter (· ∈ ranks)).isEmpty = false ↔
      group.2.any (· ∈ ranks) = true := by
    simp
  cases hempty : (group.2.filter (· ∈ ranks)).isEmpty <;> simpa [hempty] using hany

theorem length_receiversFor {buckets : List (Rank × T)} {localTopo remoteTopo : Topology}
    {ranks receivers : List Rank}
    (h : receiversFor buckets (actualLocalTopo localTopo ranks) remoteTopo = .ok receivers) :
    receivers.length = min (actualLocalTopo localTopo ranks).length
      (groupBy (fun b => deviceOf remoteTopo b.1) id buckets).length := by
  obtain ⟨receivers', hok, hmem⟩ := receiverList_forall₂
    (fun group hgroup => (mem_actualLocalTopo hgroup).1)
    (min (actualLocalTopo localTopo ranks).length
      (groupBy (fun b : Rank × T => deviceOf remoteTopo b.1) id buckets).length)
  obtain rfl : receivers = receivers' := Except.ok.inj (h.symm.trans hok)
  rw [hmem.length_eq, List.length_take, List.length_map]
  omega

/-- The rows of the matrix are no more than the devices of the owners. -/
theorem length_groups_le {buckets : List (Rank × T)} {remoteTopo : Topology} {owners : List Rank}
    (hremote : ∀ owner ∈ owners, (rankToRdmaDevice remoteTopo owner).isSome)
    (howners : ∀ b ∈ buckets, b.1 ∈ owners) :
    (groupBy (fun b => deviceOf remoteTopo b.1) id buckets).length ≤
      (owners.map (rankToRdmaDevice remoteTopo)).dedup.length := by
  have hnodup := (groupBy_keys_nodup (fun b : Rank × T => deviceOf remoteTopo b.1) id
    buckets).map (Option.some_injective String)
  rw [← List.length_map (f := some ∘ Prod.fst), ← List.map_map]
  refine (List.subperm_of_subset hnodup ?_).length_le
  intro device hdevice
  obtain ⟨key, hkey, rfl⟩ := List.mem_map.mp hdevice
  obtain ⟨b, hb, rfl⟩ := mem_keys_groupBy.mp hkey
  obtain ⟨device, hsome⟩ := Option.isSome_iff_exists.mp (hremote b.1 (howners b hb))
  refine List.mem_dedup.mpr (List.mem_map.mpr ⟨b.1, howners b hb, ?_⟩)
  rw [deviceOf, hsome]
  rfl

/-- Behind every device the buckets stand in the planned order. -/
theorem flattenedBuckets_filter {buckets : List (Rank × H2DBucket)} {remoteTopo : Topology}
    (hbuckets : ∀ b ∈ buckets, (rankToRdmaDevice remoteTopo b.1).isSome) (device : String) :
    (flattenedBuckets remoteTopo buckets).filter
        (fun b => rankToRdmaDevice remoteTopo b.1 = some device) =
      buckets.filter fun b => rankToRdmaDevice remoteTopo b.1 = some device := by
  have hiff : ∀ b ∈ buckets, (rankToRdmaDevice remoteTopo b.1 = some device ↔
      deviceOf remoteTopo b.1 = device) := by
    intro b hb
    obtain ⟨d, hd⟩ := Option.isSome_iff_exists.mp (hbuckets b hb)
    simp [deviceOf, hd]
  have hflat_mem : ∀ b ∈ flattenedBuckets remoteTopo buckets, b ∈ buckets := fun b hb =>
    (flattenedBuckets_perm remoteTopo buckets).mem_iff.mp hb
  calc (flattenedBuckets remoteTopo buckets).filter
          (fun b => rankToRdmaDevice remoteTopo b.1 = some device)
      = (flattenedBuckets remoteTopo buckets).filter
          (fun b => deviceOf remoteTopo b.1 = device) :=
        List.filter_congr fun b hb => by simpa using hiff b (hflat_mem b hb)
    _ = buckets.filter (fun b => deviceOf remoteTopo b.1 = device) :=
        filter_columns_groupBy (fun b : Rank × H2DBucket => deviceOf remoteTopo b.1)
          buckets device
    _ = buckets.filter (fun b => rankToRdmaDevice remoteTopo b.1 = some device) :=
        List.filter_congr fun b hb => by simpa using (hiff b hb).symm

/-- In peer-to-peer mode the plan is handed out whole: the same buckets from the same
owners, to ranks of the update only, to no more of them than there are local groups
and owner devices, and behind every device in the planned order. -/
theorem genH2dBuckets_conserves {globalMetas : GlobalMetas} {bucketSize : Nat}
    (h : PlannerInput globalMetas bucketSize) {localTopo remoteTopo : Topology}
    {ranks : List Rank}
    (hremote : ∀ owner ∈ globalMetas, (rankToRdmaDevice remoteTopo owner.1).isSome)
    (hmeets : ∃ group ∈ localTopo, ∃ rank ∈ group.2, rank ∈ ranks) :
    ∃ plan assigned,
      genH2dBuckets globalMetas bucketSize localTopo remoteTopo [] = .ok (some plan) ∧
      genH2dBuckets globalMetas bucketSize localTopo remoteTopo ranks =
        .ok (some assigned) ∧
      (assigned.map Prod.snd).Perm (plan.map Prod.snd) ∧
      (∀ x ∈ assigned, x.1 ∈ ranks) ∧
      (assigned.map Prod.fst).dedup.length ≤ min (meetingGroups localTopo ranks).length
        (globalMetas.map fun owner => rankToRdmaDevice remoteTopo owner.1).dedup.length ∧
      ∀ device,
        (assigned.map Prod.snd).filter
            (fun b => rankToRdmaDevice remoteTopo b.1 = some device) =
          (plan.map Prod.snd).filter
            fun b => rankToRdmaDevice remoteTopo b.1 = some device := by
  obtain ⟨buckets, hok, howners, -⟩ := h.allBuckets_carry
  have hranks : ranks.isEmpty = false := by
    obtain ⟨_, -, rank, -, hin⟩ := hmeets
    simpa using List.ne_nil_of_mem hin
  have hbuckets : ∀ b ∈ buckets, (rankToRdmaDevice remoteTopo b.1).isSome := by
    intro b hb
    obtain ⟨owner, howner, heq⟩ := List.mem_map.mp (howners b hb)
    rw [← heq]
    exact hremote owner howner
  have hactual := actualLocalTopo_ne_nil hmeets
  obtain ⟨assigned, hassigned, hperm, hmembers⟩ := assignReceiverRanks_ok hactual hbuckets
  obtain ⟨receivers, hreceivers, hwhile⟩ := assignReceiverRanks_returned hbuckets hassigned
  obtain ⟨hflat, hreceived⟩ := assignWhile_spec hwhile
  have hplan : (buckets.map fun b => (b.1, b.1, b.2)).map Prod.snd = buckets := by
    simp [Function.comp_def]
  refine ⟨buckets.map fun b => (b.1, b.1, b.2), assigned, ?_, ?_, ?_, hmembers, ?_, ?_⟩
  · simp only [genH2dBuckets, hok]
    rfl
  · simp only [genH2dBuckets, hok, hranks]
    exact hassigned
  · rwa [hplan]
  · have hlength : receivers.length ≤ min (meetingGroups localTopo ranks).length
        (globalMetas.map fun owner => rankToRdmaDevice remoteTopo owner.1).dedup.length := by
      rw [length_receiversFor hreceivers, length_actualLocalTopo]
      have hgroups := length_groups_le (by simpa using hremote) howners
      rw [List.map_map] at hgroups
      exact min_le_min_left _ hgroups
    refine le_trans ?_ hlength
    refine (List.subperm_of_subset (List.nodup_dedup _) ?_).length_le
    intro receiver hreceiver
    obtain ⟨x, hx, rfl⟩ := List.mem_map.mp (List.mem_dedup.mp hreceiver)
    exact hreceived x hx
  · intro device
    rw [hplan, hflat]
    exact flattenedBuckets_filter hbuckets device

theorem genH2dBuckets_conserves_emptyTensor :
    ∃ plan assigned,
      genH2dBuckets emptyTensorMetas 4 [("m0", [0, 1]), ("m1", [2])] [("d0", [0])] [] =
        .ok (some plan) ∧
      genH2dBuckets emptyTensorMetas 4 [("m0", [0, 1]), ("m1", [2])] [("d0", [0])] [1, 0, 1] =
        .ok (some assigned) ∧
      (assigned.map Prod.snd).Perm (plan.map Prod.snd) ∧
      (∀ x ∈ assigned, x.1 ∈ [1, 0, 1]) ∧
      (assigned.map Prod.fst).dedup.length ≤
        min (meetingGroups [("m0", [0, 1]), ("m1", [2])] [1, 0, 1]).length
          (emptyTensorMetas.map fun owner =>
            rankToRdmaDevice [("d0", [0])] owner.1).dedup.length ∧
      ∀ device,
        (assigned.map Prod.snd).filter
            (fun b => rankToRdmaDevice [("d0", [0])] b.1 = some device) =
          (plan.map Prod.snd).filter
            fun b => rankToRdmaDevice [("d0", [0])] b.1 = some device :=
  genH2dBuckets_conserves emptyTensorMetas_input (by decide)
    ⟨("m0", [0, 1]), by simp, 1, by simp, by simp⟩

end CheckpointEngine.Plan
