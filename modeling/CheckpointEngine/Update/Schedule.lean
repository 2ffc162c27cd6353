/-
  `Update.Schedule`: the order in which `_update_per_bucket` works through the
  planned buckets, and the metadata it sends for each.

  The loop `for i in range(max_len)` visits, for every receiver in turn, that
  receiver's `i`-th bucket if it has one.  A `Turn` is one iteration of the inner
  loop; `gidx` counts the turns.  The outer iteration stages the rank's own
  `i`-th bucket before its first turn, hence `opensRow`.
-/
import CheckpointEngine.DataTypes
import CheckpointEngine.Foundation.Grouping
import Mathlib.Data.List.Chain

set_option autoImplicit false

namespace CheckpointEngine.Update

open CheckpointEngine.Foundation

/-- One iteration of the inner loop. -/
structure Turn where
  /-- the outer loop variable `i` -/
  row : Nat
  /-- it is the first inner iteration of its outer iteration -/
  opensRow : Bool
  receiver : Rank
  bucket : H2DBucket
  deriving DecidableEq, Repr, Inhabited

/-- A planned bucket: receiver, owner and bucket. -/
abbrev Planned := Rank × Rank × H2DBucket

/-- `buckets_by_receiver_rank`. -/
def bucketsByReceiverRank (buckets : List Planned) : List (Rank × List H2DBucket) :=
  groupBy (fun b => b.1) (fun b => b.2.2) buckets

/-- `receiver_rank_buckets` of a rank: its own buckets with their owners. -/
def receiverRankBuckets (rank : Rank) (buckets : List Planned) : List (Rank × H2DBucket) :=
  (buckets.filter (·.1 = rank)).map Prod.snd

/-- The receivers' rows, every bucket with its receiver. -/
def receiverRows (buckets : List Planned) : List (List (Rank × H2DBucket)) :=
  (bucketsByReceiverRank buckets).map fun (receiver, own) => own.map (receiver, ·)

/-- The turns of outer iteration `i`: only the first one opens the row. -/
def rowTurns (i : Nat) : List (Rank × H2DBucket) → List Turn
  | [] => []
  | (receiver, bucket) :: rest =>
      ⟨i, true, receiver, bucket⟩ ::
        rest.map fun (receiver, bucket) => ⟨i, false, receiver, bucket⟩

/-- `max_len`: the largest number of buckets of one receiver. -/
def maxLen (buckets : List Planned) : Nat := width (receiverRows buckets)

/-- All turns, in order. -/
def turnsOf (buckets : List Planned) : List Turn :=
  (List.range (maxLen buckets)).flatMap fun i =>
    rowTurns i (column (receiverRows buckets) i)

/-- A tensor as it is announced to the worker; `offset` is where it starts in the
shared buffer. -/
structure NamedTensor where
  name : String
  dtype : DType
  shape : TorchSize
  offset : Nat
  deriving DecidableEq, Repr, Inhabited

/-- `_to_named_tensor`. -/
def toNamedTensor : List ParameterMeta → Nat → List NamedTensor
  | [], _ => []
  | param :: rest, offset =>
      ⟨param.name, param.dtype, param.shape, offset⟩ ::
        toNamedTensor rest (offset + param.alignedSize)

/-! ## Every planned bucket has its turn -/

/-- The planned bucket of a turn: the one its receiver has at the turn's row. -/
def Turn.planned (buckets : List Planned) (turn : Turn) : Option Planned :=
  ((receiverRankBuckets turn.receiver buckets)[turn.row]?).map (turn.receiver, ·)

/-- The planned buckets by receiver. -/
def plannedGroups (buckets : List Planned) : List (Rank × List Planned) :=
  groupBy (fun b => b.1) id buckets

theorem plannedGroups_own {buckets : List Planned} {group : Rank × List Planned}
    (h : group ∈ plannedGroups buckets) : group.2 = buckets.filter (·.1 = group.1) := by
  have hgroup : (group.1, group.2) ∈ groupBy (fun b : Planned => b.1) id buckets := h
  simpa using mem_groupBy hgroup

/-- A bucket in the group of a rank is the rank's own bucket at that place. -/
theorem plannedGroups_getElem? {buckets : List Planned} {group : Rank × List Planned}
    (h : group ∈ plannedGroups buckets) {i : Nat} {b : Planned} (hb : group.2[i]? = some b) :
    b.1 = group.1 ∧ (receiverRankBuckets b.1 buckets)[i]? = some b.2 := by
  rw [plannedGroups_own h] at hb
  have hreceiver : b.1 = group.1 := by
    simpa using (List.mem_filter.mp (List.mem_of_getElem? hb)).2
  refine ⟨hreceiver, ?_⟩
  rw [receiverRankBuckets, hreceiver, List.getElem?_map, hb]
  rfl

theorem receiverRows_groups (buckets : List Planned) :
    receiverRows buckets =
      (plannedGroups buckets).map fun group => group.2.map fun b => (b.1, b.2.2) := by
  have hgroups : bucketsByReceiverRank buckets =
      (plannedGroups buckets).map fun group => (group.1, group.2.map (·.2.2)) :=
    groupBy_map (fun b : Planned => b.1) id (·.2.2) buckets
  rw [receiverRows, hgroups, List.map_map]
  apply List.map_congr_left
  intro group hgroup
  simp only [Function.comp_apply, List.map_map]
  apply List.map_congr_left
  intro b hb
  obtain ⟨i, hi, rfl⟩ := List.mem_iff_getElem.mp hb
  rw [(plannedGroups_getElem? hgroup (List.getElem?_eq_getElem hi)).1]
  rfl

theorem mem_column {buckets : List Planned} {i : Nat} {x : Rank × H2DBucket}
    (h : x ∈ column (receiverRows buckets) i) :
    ((receiverRankBuckets x.1 buckets)[i]?).map Prod.snd = some x.2 := by
  obtain ⟨row, hrow, hget⟩ := List.mem_filterMap.mp h
  rw [receiverRows_groups] at hrow
  obtain ⟨group, hgroup, rfl⟩ := List.mem_map.mp hrow
  rw [List.getElem?_map, Option.map_eq_some_iff] at hget
  obtain ⟨b, hb, rfl⟩ := hget
  rw [(plannedGroups_getElem? hgroup hb).2]
  rfl

theorem mem_rowTurns {i : Nat} {row : List (Rank × H2DBucket)} {turn : Turn}
    (h : turn ∈ rowTurns i row) : turn.row = i ∧ (turn.receiver, turn.bucket) ∈ row := by
  cases row with
  | nil => simp [rowTurns] at h
  | cons first rest =>
      rcases List.mem_cons.mp h with rfl | hrest
      · exact ⟨rfl, List.mem_cons_self⟩
      · obtain ⟨x, hx, rfl⟩ := List.mem_map.mp hrest
        exact ⟨rfl, List.mem_cons_of_mem _ hx⟩

/-- The bucket of a turn is the one its receiver has at the turn's row: what a
rank stages in an outer iteration is what it broadcasts in its own turn. -/
theorem turnsOf_own {buckets : List Planned} {turn : Turn} (h : turn ∈ turnsOf buckets) :
    ((receiverRankBuckets turn.receiver buckets)[turn.row]?).map Prod.snd =
      some turn.bucket := by
  obtain ⟨i, _, hturn⟩ := List.mem_flatMap.mp h
  obtain ⟨rfl, hmem⟩ := mem_rowTurns hturn
  exact mem_column hmem

theorem rowTurns_planned (buckets : List Planned) (i : Nat) (row : List (Rank × H2DBucket)) :
    (rowTurns i row).map (Turn.planned buckets) =
      row.map fun x => ((receiverRankBuckets x.1 buckets)[i]?).map (x.1, ·) := by
  cases row with
  | nil => rfl
  | cons first rest => simp [rowTurns, Turn.planned, Function.comp_def]

/-- One outer iteration works on the buckets in one column of the groups. -/
theorem column_planned (buckets : List Planned) (i : Nat) :
    (column (receiverRows buckets) i).map
        (fun x => ((receiverRankBuckets x.1 buckets)[i]?).map (x.1, ·)) =
      (column ((plannedGroups buckets).map Prod.snd) i).map some := by
  simp only [receiverRows_groups, column, List.filterMap_map, List.map_filterMap]
  apply List.filterMap_congr
  intro group hgroup
  simp only [Function.comp_apply, List.getElem?_map]
  cases hget : group.2[i]? with
  | none => rfl
  | some b => simp [(plannedGroups_getElem? hgroup hget).2]

/-- The turns are exactly the planned buckets, each once. -/
theorem turnsOf_perm (buckets : List Planned) :
    ((turnsOf buckets).map (Turn.planned buckets)).Perm (buckets.map some) := by
  have hturns : (turnsOf buckets).map (Turn.planned buckets) =
      ((List.range (maxLen buckets)).flatMap
        (column ((plannedGroups buckets).map Prod.snd))).map some := by
    simp only [turnsOf, List.map_flatMap, rowTurns_planned, column_planned]
  have hwidth : ∀ row ∈ (plannedGroups buckets).map Prod.snd,
      row.length ≤ maxLen buckets := by
    intro row hrow
    obtain ⟨group, hgroup, rfl⟩ := List.mem_map.mp hrow
    have hmem : group.2.map (fun b => (b.1, b.2.2)) ∈ receiverRows buckets := by
      rw [receiverRows_groups]
      exact List.mem_map_of_mem hgroup
    rw [← List.length_map fun b : Planned => (b.1, b.2.2)]
    exact length_le_width hmem
  rw [hturns]
  refine List.Perm.map some ((columns_perm_of_le _ hwidth).trans ?_)
  have hperm := groupBy_perm (fun b : Planned => b.1) id buckets
  rwa [List.map_id, List.flatMap_def] at hperm

theorem turnsOf_mem {buckets : List Planned} {turn : Turn} (h : turn ∈ turnsOf buckets) :
    ∃ b ∈ buckets, b.1 = turn.receiver ∧ b.2.2 = turn.bucket := by
  have hmem : turn.planned buckets ∈ buckets.map some :=
    (turnsOf_perm buckets).mem_iff.mp (List.mem_map_of_mem h)
  obtain ⟨b, hb, heq⟩ := List.mem_map.mp hmem
  obtain ⟨own, hown, rfl⟩ := Option.map_eq_some_iff.mp heq.symm
  have hbucket := turnsOf_own h
  rw [hown] at hbucket
  exact ⟨_, hb, rfl, Option.some.inj hbucket⟩

theorem turnsOf_length (buckets : List Planned) :
    (turnsOf buckets).length = buckets.length := by
  simpa using (turnsOf_perm buckets).length_eq

/-! ## Rows of turns -/

/-- Two consecutive turns: unless the second one opens a row, they are of one row. -/
def SameRow (turn next : Turn) : Prop := next.opensRow = false → next.row = turn.row

theorem rowTurns_chain (i : Nat) (row : List (Rank × H2DBucket)) :
    (rowTurns i row).IsChain SameRow := by
  apply List.Pairwise.isChain
  have hrow : ∀ turn ∈ rowTurns i row, turn.row = i := by
    cases row with
    | nil => simp [rowTurns]
    | cons first rest =>
        intro turn hturn
        rcases List.mem_cons.mp hturn with rfl | hrest
        · rfl
        · obtain ⟨_, _, rfl⟩ := List.mem_map.mp hrest
          rfl
  exact List.pairwise_of_forall_mem_list fun turn hturn next hnext _ =>
    (hrow next hnext).trans (hrow turn hturn).symm

theorem rowTurns_head {i : Nat} {row : List (Rank × H2DBucket)} {turn : Turn}
    (h : turn ∈ (rowTurns i row).head?) : turn.opensRow = true := by
  cases row with
  | nil => simp [rowTurns] at h
  | cons first rest =>
      obtain rfl : _ = turn := by simpa [rowTurns] using h
      rfl

theorem flatMap_rowTurns_chain (rows : Nat → List (Rank × H2DBucket)) (is : List Nat) :
    (is.flatMap fun i => rowTurns i (rows i)).IsChain SameRow ∧
      ∀ turn ∈ (is.flatMap fun i => rowTurns i (rows i)).head?, turn.opensRow = true := by
  induction is with
  | nil => exact ⟨.nil, by simp⟩
  | cons i is ih =>
      rw [List.flatMap_cons]
      refine ⟨List.isChain_append.mpr ⟨rowTurns_chain i (rows i), ih.1, ?_⟩, ?_⟩
      · intro turn _ next hnext hopens
        rw [ih.2 next hnext] at hopens
        contradiction
      · intro turn hturn
        rw [List.head?_append] at hturn
        cases hhead : (rowTurns i (rows i)).head? with
        | none => exact ih.2 turn (by simpa [hhead] using hturn)
        | some first =>
            obtain rfl : first = turn := by simpa [hhead] using hturn
            exact rowTurns_head hhead

theorem turnsOf_sameRow (buckets : List Planned) {g : Nat}
    (h : g + 1 < (turnsOf buckets).length) :
    SameRow (turnsOf buckets)[g] (turnsOf buckets)[g + 1] :=
  (flatMap_rowTurns_chain (column (receiverRows buckets)) _).1.getElem g h

theorem turnsOf_first (buckets : List Planned) (h : 0 < (turnsOf buckets).length) :
    (turnsOf buckets)[0].opensRow = true :=
  (flatMap_rowTurns_chain (column (receiverRows buckets)) _).2 _
    (List.head?_eq_getElem? ▸ List.getElem?_eq_getElem h)

end CheckpointEngine.Update
