/-
  `Plan.Receivers`: the receivers of the buckets, `_assign_receiver_ranks` and
  the second half of `_gen_h2d_buckets` in `checkpoint_engine/ps.py`.

  The `while` loop of `_assign_receiver_ranks` is `assignWhile`; its first
  argument bounds the number of passes.  A pass that assigns nothing leaves the
  loop where it was, so a loop that has not ended after as many passes as there
  are buckets never ends; `assignWhile_total` shows that it does end as soon as
  there is a receiver.
-/
import CheckpointEngine.Plan.H2DBuckets
import CheckpointEngine.Foundation.Grouping
import CheckpointEngine.Foundation.Fallible

set_option autoImplicit false

namespace CheckpointEngine.Plan

open CheckpointEngine.Foundation

variable {T : Type}

/-- A topology: RDMA device names with the ranks behind each, in insertion order. -/
abbrev Topology := List (String × List Rank)

/-- `rank_to_rdma_device[rank]`: of several devices listing the rank, the last. -/
def rankToRdmaDevice (remoteTopo : Topology) (rank : Rank) : Option String :=
  (remoteTopo.flatMap fun (rdmaDevice, ranks) => ranks.map (·, rdmaDevice)).reverse.lookup rank

/-- One pass of `for receiver_rank in receiver_list`, on the buckets not yet
assigned: the triples it appends, and what is left after it. -/
def assignRound (device : Rank → String) :
    List Rank → List String → List (Rank × T) → List (Rank × Rank × T) × List (Rank × T)
  | [], _, rest => ([], rest)
  | _ :: _, _, [] => ([], [])
  | receiver :: receivers, occupied, (owner, bucket) :: rest =>
      if device owner ∈ occupied then
        ([], (owner, bucket) :: rest)
      else
        let round := assignRound device receivers (device owner :: occupied) rest
        ((receiver, owner, bucket) :: round.1, round.2)

/-- `while assigned_cnt < len(flattened_buckets)`, for at most `passes` passes. -/
def assignWhile (device : Rank → String) (receivers : List Rank) :
    Nat → List (Rank × T) → Option (List (Rank × Rank × T))
  | _, [] => some []
  | 0, _ :: _ => none
  | passes + 1, rest@(_ :: _) =>
      let round := assignRound device receivers [] rest
      (assignWhile device receivers passes round.2).map (round.1 ++ ·)

/-- `[min(ranks) for ranks in list(local_topo.values())[:num_receivers]]`. -/
def receiverList (localTopo : Topology) (numReceivers : Nat) : Except PyError (List Rank) :=
  ((localTopo.map Prod.snd).take numReceivers).mapM fun ranks =>
    match ranks.min? with
    | some rank => .ok rank
    | none => .error (.valueError "min() arg is an empty sequence")

/-- `_assign_receiver_ranks`.  The inner result is `none` when the `while` loop
does not end.  The matrix is not empty, since `buckets` is not. -/
def assignReceiverRanks (buckets : List (Rank × T)) (localTopo remoteTopo : Topology) :
    Except PyError (Option (List (Rank × Rank × T))) :=
  if buckets.isEmpty then
    .ok (some [])
  else
    match buckets.find? fun b => (rankToRdmaDevice remoteTopo b.1).isNone with
    | some b => .error (.keyError (toString b.1))
    | none => do
        let device := fun rank => (rankToRdmaDevice remoteTopo rank).getD ""
        let bucketsByRdmaDevice := groupBy (fun b => device b.1) id buckets
        let receivers ← receiverList localTopo (min localTopo.length bucketsByRdmaDevice.length)
        let flattened := columns (bucketsByRdmaDevice.map Prod.snd)
        return assignWhile device receivers flattened.length flattened

/-- `actual_local_topo`: the groups that meet `ranks`, cut down to `ranks`. -/
def actualLocalTopo (localTopo : Topology) (ranks : List Rank) : Topology :=
  localTopo.filterMap fun (rdmaDevice, group) =>
    let members := group.filter (· ∈ ranks)
    if members.isEmpty then none else some (rdmaDevice, members)

/-- `_gen_h2d_buckets`; an empty `ranks` stands for `None` as well. -/
def genH2dBuckets {Size : Type} [OfNat Size 0] [Add Size] [Sub Size] [LT Size]
    [DecidableLT Size] [ToString Size] (globalMetas : GlobalMetas Size) (bucketSize : Size)
    (localTopo remoteTopo : Topology) (ranks : List Rank) :
    Except PyError (Option (List (Rank × Rank × H2DBucket Size))) := do
  let buckets ← allBuckets bucketSize globalMetas
  if ranks.isEmpty then
    return some (buckets.map fun (ownerRank, bucket) => (ownerRank, ownerRank, bucket))
  else
    assignReceiverRanks buckets (actualLocalTopo localTopo ranks) remoteTopo

/-! ## One pass, and the loop -/

/-- A pass takes from the front: what it assigns, followed by what it leaves, is
what it was given. -/
theorem assignRound_split (device : Rank → String) (receivers : List Rank) :
    ∀ (occupied : List String) (rest : List (Rank × T)),
      (assignRound device receivers occupied rest).1.map Prod.snd ++
        (assignRound device receivers occupied rest).2 = rest := by
  induction receivers with
  | nil => intro occupied rest; rfl
  | cons receiver receivers ih =>
      intro occupied rest
      cases rest with
      | nil => rfl
      | cons bucket rest =>
          obtain ⟨owner, bucket⟩ := bucket
          unfold assignRound
          split
          · rfl
          · simpa using ih (device owner :: occupied) rest

/-- A pass pairs the receivers with the buckets, in order. -/
theorem assignRound_zip (device : Rank → String) (receivers : List Rank) :
    ∀ (occupied : List String) (rest : List (Rank × T)),
      (assignRound device receivers occupied rest).1 =
        receivers.zip ((assignRound device receivers occupied rest).1.map Prod.snd) := by
  induction receivers with
  | nil => intro occupied rest; rfl
  | cons receiver receivers ih =>
      intro occupied rest
      cases rest with
      | nil => rfl
      | cons bucket rest =>
          obtain ⟨owner, bucket⟩ := bucket
          unfold assignRound
          split
          · rfl
          · simpa using ih (device owner :: occupied) rest

theorem assignRound_receiver {device : Rank → String} {receivers : List Rank}
    {x : Rank × Rank × T} {occupied : List String} {rest : List (Rank × T)}
    (h : x ∈ (assignRound device receivers occupied rest).1) : x.1 ∈ receivers := by
  rw [assignRound_zip] at h
  exact (List.of_mem_zip h).1

/-- A pass over at least one receiver assigns at least one bucket. -/
theorem assignRound_progress (device : Rank → String) {receivers : List Rank}
    (hreceivers : receivers ≠ []) {rest : List (Rank × T)} (hrest : rest ≠ []) :
    (assignRound device receivers [] rest).2.length < rest.length := by
  obtain ⟨receiver, receivers, rfl⟩ := List.exists_cons_of_ne_nil hreceivers
  obtain ⟨⟨owner, bucket⟩, rest, rfl⟩ := List.exists_cons_of_ne_nil hrest
  have hsplit := congrArg List.length
    (assignRound_split device (receiver :: receivers) [] ((owner, bucket) :: rest))
  simp [assignRound] at hsplit ⊢
  omega

/-- The loop hands out the buckets in their order, each to a receiver. -/
theorem assignWhile_spec {device : Rank → String} {receivers : List Rank} :
    ∀ {passes : Nat} {rest : List (Rank × T)} {out : List (Rank × Rank × T)},
      assignWhile device receivers passes rest = some out →
        out.map Prod.snd = rest ∧ ∀ x ∈ out, x.1 ∈ receivers := by
  intro passes
  induction passes with
  | zero =>
      intro rest out h
      cases rest with
      | nil => obtain rfl : [] = out := by simpa [assignWhile] using h
               simp
      | cons bucket rest => simp [assignWhile] at h
  | succ passes ih =>
      intro rest out h
      cases rest with
      | nil => obtain rfl : [] = out := by simpa [assignWhile] using h
               simp
      | cons bucket rest =>
          rw [assignWhile, Option.map_eq_some_iff] at h
          obtain ⟨tail, htail, rfl⟩ := h
          obtain ⟨hmap, hmem⟩ := ih htail
          refine ⟨?_, ?_⟩
          · rw [List.map_append, hmap]
            exact assignRound_split device receivers [] (bucket :: rest)
          · intro x hx
            rcases List.mem_append.mp hx with hx | hx
            · exact assignRound_receiver hx
            · exact hmem x hx

/-- With a receiver the loop ends within as many passes as there are buckets. -/
theorem assignWhile_total (device : Rank → String) {receivers : List Rank}
    (hreceivers : receivers ≠ []) :
    ∀ (passes : Nat) (rest : List (Rank × T)), rest.length ≤ passes →
      ∃ out, assignWhile device receivers passes rest = some out := by
  intro passes
  induction passes with
  | zero =>
      intro rest h
      obtain rfl : rest = [] := List.length_eq_zero_iff.mp (Nat.le_zero.mp h)
      exact ⟨[], rfl⟩
  | succ passes ih =>
      intro rest h
      cases rest with
      | nil => exact ⟨[], rfl⟩
      | cons bucket rest =>
          have hprogress := assignRound_progress device hreceivers
            (List.cons_ne_nil bucket rest)
          obtain ⟨tail, htail⟩ := ih (assignRound device receivers [] (bucket :: rest)).2
            (by omega)
          exact ⟨_, by rw [assignWhile, htail]; rfl⟩

/-- Without a receiver the loop never ends, however many passes it is given. -/
theorem assignWhile_diverges (device : Rank → String) {rest : List (Rank × T)}
    (hrest : rest ≠ []) (passes : Nat) : assignWhile device [] passes rest = none := by
  obtain ⟨bucket, rest, rfl⟩ := List.exists_cons_of_ne_nil hrest
  induction passes with
  | zero => rfl
  | succ passes ih => rw [assignWhile, assignRound, ih]; rfl

/-! ## Receivers -/

theorem mem_actualLocalTopo {localTopo : Topology} {ranks : List Rank}
    {group : String × List Rank} (h : group ∈ actualLocalTopo localTopo ranks) :
    group.2 ≠ [] ∧ ∀ rank ∈ group.2, rank ∈ ranks := by
  unfold actualLocalTopo at h
  obtain ⟨⟨rdmaDevice, all⟩, _, hsome⟩ := List.mem_filterMap.mp h
  simp only [List.isEmpty_iff, Option.ite_none_left_eq_some, Option.some.injEq] at hsome
  obtain ⟨hne, rfl⟩ := hsome
  exact ⟨hne, fun rank hrank => by simpa using (List.mem_filter.mp hrank).2⟩

/-- The local topology cut down to the ranks of the update is not empty. -/
theorem actualLocalTopo_ne_nil {localTopo : Topology} {ranks : List Rank}
    (h : ∃ group ∈ localTopo, ∃ rank ∈ group.2, rank ∈ ranks) :
    actualLocalTopo localTopo ranks ≠ [] := by
  obtain ⟨⟨rdmaDevice, group⟩, hgroup, rank, hrank, hmem⟩ := h
  have hmember : rank ∈ group.filter (· ∈ ranks) := by simp_all
  apply List.ne_nil_of_mem (a := (rdmaDevice, group.filter (· ∈ ranks)))
  apply List.mem_filterMap.mpr
  refine ⟨_, hgroup, ?_⟩
  have hne : (group.filter (· ∈ ranks)).isEmpty = false := by
    rw [List.isEmpty_eq_false_iff]
    exact List.ne_nil_of_mem hmember
  simp [hne]

/-- The minimum of every group is one of its ranks, and a group that is not empty
has one. -/
theorem mapM_min?_ok : ∀ {groups : List (List Rank)}, (∀ group ∈ groups, group ≠ []) →
    ∃ receivers : List Rank,
      (groups.mapM fun ranks => match ranks.min? with
        | some rank => (Except.ok rank : Except PyError Rank)
        | none => .error (.valueError "min() arg is an empty sequence")) = .ok receivers ∧
      List.Forall₂ (fun receiver group => receiver ∈ group) receivers groups := by
  intro groups
  induction groups with
  | nil => intro _; exact ⟨[], rfl, .nil⟩
  | cons group groups ih =>
      intro hne
      obtain ⟨receivers, hok, hmem⟩ := ih fun g hg => hne g (List.mem_cons_of_mem _ hg)
      have hgroup : group ≠ [] := hne group List.mem_cons_self
      obtain ⟨rank, hmin⟩ : ∃ rank, group.min? = some rank := by
        cases hmin : group.min? with
        | none => exact absurd (List.min?_eq_none_iff.mp hmin) hgroup
        | some rank => exact ⟨rank, rfl⟩
      refine ⟨rank :: receivers, ?_, .cons (List.min?_mem hmin) hmem⟩
      rw [List.mapM_cons, hmin, hok]
      rfl

theorem receiverList_forall₂ {localTopo : Topology}
    (hgroups : ∀ group ∈ localTopo, group.2 ≠ []) (numReceivers : Nat) :
    ∃ receivers, receiverList localTopo numReceivers = .ok receivers ∧
      List.Forall₂ (fun receiver group => receiver ∈ group) receivers
        ((localTopo.map Prod.snd).take numReceivers) := by
  refine mapM_min?_ok ?_
  intro group hgroup
  obtain ⟨pair, hpair, rfl⟩ := List.mem_map.mp (List.mem_of_mem_take hgroup)
  exact hgroups pair hpair

/-- There is a receiver whenever there is a local group and a bucket to assign. -/
theorem receivers_ne_nil {localTopo : Topology} {receivers : List Rank} {n : Nat}
    (hmem : List.Forall₂ (fun receiver group => receiver ∈ group) receivers
      ((localTopo.map Prod.snd).take (min localTopo.length n)))
    (hlocal : localTopo ≠ []) (hn : 0 < n) : receivers ≠ [] := by
  have hlength := hmem.length_eq
  have hpos := List.length_pos_iff.mpr hlocal
  rw [List.length_take, List.length_map] at hlength
  exact List.ne_nil_of_length_pos (by omega)

/-- The receivers are ranks of the update, and there is one whenever a local
group meets the update and there is a bucket to assign. -/
theorem receiverList_ok {localTopo : Topology} {ranks : List Rank}
    (hmeets : actualLocalTopo localTopo ranks ≠ []) {n : Nat} (hn : 0 < n) :
    ∃ receivers,
      receiverList (actualLocalTopo localTopo ranks)
        (min (actualLocalTopo localTopo ranks).length n) = .ok receivers ∧
      receivers ≠ [] ∧ ∀ receiver ∈ receivers, receiver ∈ ranks := by
  obtain ⟨receivers, hok, hmem⟩ := receiverList_forall₂
    (fun group hgroup => (mem_actualLocalTopo hgroup).1)
    (min (actualLocalTopo localTopo ranks).length n)
  refine ⟨receivers, hok, receivers_ne_nil hmem hmeets hn, ?_⟩
  intro receiver hreceiver
  obtain ⟨group, hgroup, hin⟩ := exists_of_forall₂ hmem hreceiver
  obtain ⟨pair, hpair, rfl⟩ := List.mem_map.mp (List.mem_of_mem_take hgroup)
  exact (mem_actualLocalTopo hpair).2 receiver hin

/-! ## The assignment in terms of the loop -/

/-- The device behind which a rank of the remote topology reads its memory. -/
def deviceOf (remoteTopo : Topology) (rank : Rank) : String :=
  (rankToRdmaDevice remoteTopo rank).getD ""

/-- `flattened_buckets`. -/
def flattenedBuckets (remoteTopo : Topology) (buckets : List (Rank × T)) : List (Rank × T) :=
  columns ((groupBy (fun b => deviceOf remoteTopo b.1) id buckets).map Prod.snd)

/-- `receiver_list`. -/
def receiversFor (buckets : List (Rank × T)) (localTopo remoteTopo : Topology) :
    Except PyError (List Rank) :=
  receiverList localTopo
    (min localTopo.length (groupBy (fun b => deviceOf remoteTopo b.1) id buckets).length)

theorem groups_pos (remoteTopo : Topology) {buckets : List (Rank × T)} (h : buckets ≠ []) :
    0 < (groupBy (fun b => deviceOf remoteTopo b.1) id buckets).length := by
  obtain ⟨bucket, rest, rfl⟩ := List.exists_cons_of_ne_nil h
  have hkey : deviceOf remoteTopo bucket.1 ∈
      (groupBy (fun b => deviceOf remoteTopo b.1) id (bucket :: rest)).map Prod.fst :=
    mem_keys_groupBy.mpr ⟨bucket, List.mem_cons_self, rfl⟩
  simpa using List.length_pos_of_mem hkey

/-- With every owner in the remote topology, the assignment is the loop over the
flattened matrix. -/
theorem assignReceiverRanks_eq {buckets : List (Rank × T)} {localTopo remoteTopo : Topology}
    (hbuckets : buckets ≠ [])
    (hremote : ∀ b ∈ buckets, (rankToRdmaDevice remoteTopo b.1).isSome) :
    assignReceiverRanks buckets localTopo remoteTopo =
      (receiversFor buckets localTopo remoteTopo).map fun receivers =>
        assignWhile (deviceOf remoteTopo) receivers
          (flattenedBuckets remoteTopo buckets).length (flattenedBuckets remoteTopo buckets) := by
  have hfind : buckets.find? (fun b => (rankToRdmaDevice remoteTopo b.1).isNone) = none := by
    rw [List.find?_eq_none]
    intro b hb
    simpa [Option.isSome_iff_ne_none] using hremote b hb
  have hempty : buckets.isEmpty = false := by simpa using hbuckets
  unfold assignReceiverRanks
  rw [hempty, hfind]
  change (receiversFor buckets localTopo remoteTopo >>= fun receivers => _) = _
  cases receiversFor buckets localTopo remoteTopo <;> rfl

theorem flattenedBuckets_perm (remoteTopo : Topology) (buckets : List (Rank × T)) :
    (flattenedBuckets remoteTopo buckets).Perm buckets := by
  refine (columns_perm _).trans ?_
  have hperm := groupBy_perm (fun b : Rank × T => deviceOf remoteTopo b.1) id buckets
  rw [List.map_id] at hperm
  rw [← List.flatMap_def]
  exact hperm

/-- The assignment loses and duplicates nothing, and every receiver belongs to
the update. -/
theorem assignReceiverRanks_ok {buckets : List (Rank × T)} {localTopo remoteTopo : Topology}
    {ranks : List Rank} (hmeets : actualLocalTopo localTopo ranks ≠ [])
    (hremote : ∀ b ∈ buckets, (rankToRdmaDevice remoteTopo b.1).isSome) :
    ∃ out, assignReceiverRanks buckets (actualLocalTopo localTopo ranks) remoteTopo =
        .ok (some out) ∧
      (out.map Prod.snd).Perm buckets ∧ ∀ x ∈ out, x.1 ∈ ranks := by
  by_cases hbuckets : buckets = []
  · subst hbuckets
    exact ⟨[], rfl, .nil, by simp⟩
  obtain ⟨receivers, hok, hne, hmem⟩ := receiverList_ok hmeets (groups_pos remoteTopo hbuckets)
  obtain ⟨out, hout⟩ := assignWhile_total (deviceOf remoteTopo) hne _
    (flattenedBuckets remoteTopo buckets) (Nat.le_refl _)
  obtain ⟨hmap, hreceivers⟩ := assignWhile_spec hout
  refine ⟨out, ?_, ?_, fun x hx => hmem _ (hreceivers x hx)⟩
  · rw [assignReceiverRanks_eq hbuckets hremote, receiversFor, hok, ← hout]
    rfl
  · rw [hmap]
    exact flattenedBuckets_perm remoteTopo buckets

/-- Whatever is planned for an update of some ranks is received by these. -/
theorem genH2dBuckets_receivers {globalMetas : GlobalMetas} {bucketSize : Nat}
    {localTopo remoteTopo : Topology} {ranks : List Rank}
    {out : List (Rank × Rank × H2DBucket)} (hranks : ranks ≠ [])
    (h : genH2dBuckets globalMetas bucketSize localTopo remoteTopo ranks = .ok (some out)) :
    ∀ b ∈ out, b.1 ∈ ranks := by
  rw [genH2dBuckets] at h
  obtain ⟨buckets, _, h⟩ := bind_eq_ok.mp h
  rw [if_neg (by simpa using hranks), assignReceiverRanks] at h
  split at h
  · cases h
    exact fun _ hb => nomatch hb
  · split at h
    · cases h
    · obtain ⟨receivers, hreceivers, h⟩ := bind_eq_ok.mp h
      obtain ⟨receivers', hok, hmem⟩ := receiverList_forall₂
        (fun group hgroup => (mem_actualLocalTopo hgroup).1)
        (min (actualLocalTopo localTopo ranks).length _)
      obtain rfl := Except.ok.inj (hok.symm.trans hreceivers)
      obtain ⟨_, hfrom⟩ := assignWhile_spec (Except.ok.inj h)
      intro b hb
      obtain ⟨group, hgroup, hin⟩ := exists_of_forall₂ hmem (hfrom b hb)
      obtain ⟨pair, hpair, rfl⟩ := List.mem_map.mp (List.mem_of_mem_take hgroup)
      exact (mem_actualLocalTopo hpair).2 b.1 hin

end CheckpointEngine.Plan
