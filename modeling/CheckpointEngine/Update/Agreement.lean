/-
  `Update.Agreement`: all ranks stop at the same turn, and what that says about the
  workers.

  Every rank decides from the sum of all error codes, one turn late, so they decide
  alike.  The reply to the last bucket is read after the loop and not looked at; an
  update is therefore sound exactly if a failure shows before that.
-/
import CheckpointEngine.Update.DoubleBuffer
import CheckpointEngine.Update.Quiescence

set_option autoImplicit false

namespace CheckpointEngine.Update

open CheckpointEngine.Foundation

variable {u : Update} {rank : Rank}

/-! ## One outcome -/

/-- Nothing fails but the workers' `attach` and `run`. -/
structure OnlyWorkersFail (u : Update) : Prop where
  copies : u.CopiesSucceed
  start : u.WorkersStart
  release : ∀ rank ∈ u.ranks, u.env.releaseRaises rank = false
  postHook : ∀ rank ∈ u.ranks, u.env.postHookRaises rank = false

theorem OnlyWorkersFail.quiet (h : u.OnlyWorkersFail) : u.EndsQuietly :=
  fun _ rank hrank => ⟨h.release rank hrank, h.postHook rank hrank⟩

/-- The collectives of an update that ends as its failures determine. -/
def schedule (u : Update) : List CollectiveKind :=
  (List.range (u.outcome.issues u)).map (fun k => (u.collective 0 k).kind) ++ [.barrier]

/-- What one rank has done is a part of what all ranks do. -/
structure InStep (u : Update) (x : RankState) : Prop where
  /-- the collectives it has issued are the first ones of the common schedule -/
  collectives : x.server.issued.map Collective.kind <+: u.schedule
  /-- it stops where all ranks stop -/
  stops : ∀ exit, x.server.pc.exit? = some exit → exit = u.outcome
  /-- when it raises, its last message is an exception, and the only one -/
  farewell : ∀ g, x.server.pc.exit? = some (.remoteError g) →
    ∃ before, x.server.sent = before ++ [.exception] ∧ .exception ∉ before
  /-- otherwise it has sent none -/
  noFarewell : (∀ g, x.server.pc.exit? ≠ some (.remoteError g)) → .exception ∉ x.server.sent
  /-- it never sends twice or receives twice in a row -/
  alternates : x.server.socket.IsChain (· ≠ ·)

/-- All ranks run through the collectives of the plan to the end that the failures fix. -/
structure RanksAgree (u : Update) : Prop where
  /-- the update raises in the first turn that finds an error, else runs through all buckets -/
  outcome_cases : (∃ g, u.outcome = .remoteError g ∧ g < u.rounds ∧ ¬ u.Clean g ∧
      ∀ k < g, u.Clean k) ∨
    (u.outcome = .returned ∧ ∀ k < u.rounds, u.Clean k)
  inStep : ∀ s, u.Reachable s → ∀ r ∈ u.ranks, u.InStep (s r)
  /-- where nothing moves, every rank has left with that outcome, behind all collectives, and
  has sent its worker every message up to there -/
  final : ∀ s, u.Reachable s → u.Final s → ∀ r ∈ u.ranks,
    (s r).server.pc = .left u.outcome ∧
      (s r).server.issued.map Collective.kind = u.schedule ∧
      (s r).server.sent = (List.range (u.outcome.sends u)).map u.message ++ u.outcome.farewell
  terminates : ∀ run : Nat → State, run 0 = u.initial →
    ¬ ∀ n, u.machine.Next (run n) (run (n + 1))

/-- A control point that the failures allow is not behind the outcome. -/
theorem Pc.issues_le_outcome {pc : Pc} (hvalid : pc.Valid u)
    (hclean : ∀ g < pc.cleared u, u.Clean g)
    (hlocal : ∀ g, pc.exit? ≠ some (.localError g)) :
    pc.issues u ≤ u.outcome.issues u := by
  have hexit : ∀ exit, pc.exit? = some exit → exit.Valid u →
      (∀ g < exit.cleared u, u.Clean g) → exit.issues u ≤ u.outcome.issues u := by
    intro exit hpc hvalid hclean
    rw [Exit.eq_outcome hvalid hclean fun g hg => hlocal g (hg ▸ hpc)]
  cases pc with
  | join exit | barrier exit | awaitBarrier exit | left exit => exact hexit exit rfl hvalid hclean
  | stage g | fill g | broadcast g | recvReply g | allReduce g | synchronize g =>
      have hturn := turn_le_outcome hvalid hclean
      simp only [Pc.issues]
      omega
  | sendHandle => exact Nat.zero_le _
  | recvLast | sendRelease | recvRelease | sendFinish | recvFinish =>
      rw [outcome_returned_iff.mpr hclean]
      exact Nat.le_refl _

theorem issuedAt_kinds (u : Update) (rank : Rank) (pc : Pc) :
    (u.issuedAt rank pc).map Collective.kind =
      (List.range (pc.issues u)).map (fun k => (u.collective 0 k).kind) ++
        pc.barriers.map Collective.kind := by
  rw [issuedAt, List.map_append, List.map_map]
  congr 1
  exact List.map_congr_left fun k _ => collective_kind u rank 0 k

theorem map_range_le {β : Type} (f : Nat → β) {m n : Nat} (h : m ≤ n) :
    (List.range m).map f <+: (List.range n).map f := by
  obtain ⟨k, rfl⟩ := Nat.exists_eq_add_of_le h
  rw [List.range_add, List.map_append]
  exact List.prefix_append _ _

theorem exception_not_mem_sent {pc : Pc} :
    .exception ∉ (List.range (pc.sends u)).map u.message := by
  intro hmem
  obtain ⟨k, _, hk⟩ := List.mem_map.mp hmem
  exact message_ne_exception u k hk

/-- The collectives issued so far are the first ones of the schedule. -/
theorem ServerInv.issues_schedule {s : Server} {d : Device} (hs : ServerInv u rank s d)
    (hlocal : ∀ g, s.pc.exit? ≠ some (.localError g)) :
    s.issued.map Collective.kind <+: u.schedule := by
  rw [hs.history, serverAt, issuedAt_kinds, schedule]
  have hle := Pc.issues_le_outcome hs.valid hs.clean hlocal
  have hnone : s.pc.barriers = [] →
      (List.range (s.pc.issues u)).map (fun k => (u.collective 0 k).kind) ++
        s.pc.barriers.map Collective.kind <+:
      (List.range (u.outcome.issues u)).map (fun k => (u.collective 0 k).kind) ++
        [.barrier] := by
    intro hbarriers
    rw [hbarriers, List.map_nil, List.append_nil]
    exact (map_range_le _ hle).trans (List.prefix_append _ _)
  have hstops := hs.stops hlocal
  cases hpc : s.pc with
  | awaitBarrier exit | left exit =>
      obtain rfl := hstops exit (by rw [hpc]; rfl)
      exact List.prefix_refl _
  | _ =>
      rw [hpc] at hnone
      exact hnone rfl

/-- Every rank in every reachable state is in step. -/
theorem RankInv.inStep {x : RankState} (hinv : RankInv u rank x)
    (hlocal : ∀ g, x.server.pc.exit? ≠ some (.localError g)) :
    u.InStep x := by
  refine ⟨hinv.server.issues_schedule hlocal, hinv.server.stops hlocal, ?_, ?_, ?_⟩
  · intro g hpc
    refine ⟨(List.range (x.server.pc.sends u)).map u.message, ?_, exception_not_mem_sent⟩
    conv_lhs => rw [hinv.server.history, serverAt, sentAt]
    simp [Pc.farewell, hpc, Exit.farewell]
  · intro hpc
    rw [hinv.server.history, serverAt, sentAt]
    have hfarewell : x.server.pc.farewell = [] := by
      simp only [Pc.farewell]
      cases hexit : x.server.pc.exit? with
      | none => rfl
      | some exit =>
          cases exit with
          | remoteError g => exact absurd hexit (hpc g)
          | returned | localError _ => rfl
    rw [hfarewell, List.append_nil]
    exact exception_not_mem_sent
  · rw [hinv.server.history]
    exact alternating_chain _

/-- All ranks of an update agree on where it stops, whatever errors their workers
report. -/
theorem ranks_agree (u : Update) (h : u.OnlyWorkersFail) : u.RanksAgree := by
  refine ⟨outcome_cases u, ?_, ?_, ?_⟩
  · intro s hs r hr
    exact (rankInv hs r hr).inStep (exit_not_local h.copies hs r hr)
  · intro s hs hfinal r hr
    have hpc := final_left hs hfinal h.copies h.start h.quiet r hr
    refine ⟨hpc, ?_, ?_⟩
    · rw [(rankInv hs r hr).server.history, serverAt, issuedAt_kinds, hpc]
      rfl
    · rw [(rankInv hs r hr).server.history, serverAt, sentAt, hpc]
      rfl
  · intro run hstart
    exact (machine_descends u).no_infinite_run run (hstart ▸ Machine.Reachable.init)

/-- Two ranks, and the worker of the second one does not attach. -/
def attachFails : Update :=
  singleBucket [1] { Environment.faultless with attachRaises := fun rank => rank == 1 }

theorem ranks_agree_attachFails : attachFails.RanksAgree :=
  ranks_agree attachFails
    { copies := fun _ _ _ h => nomatch h
      start := fun _ _ h => nomatch h
      release := fun _ _ => rfl
      postHook := fun _ _ => rfl }

/-! ## What a normal return says -/

/-- A normal return of any rank means that `run` has succeeded on every rank for every
bucket, and where a worker has replied with an error every rank raises. -/
structure SuccessSound (u : Update) : Prop where
  returned : ∀ s, u.Reachable s → ∀ r ∈ u.ranks, (s r).server.pc = .left .returned →
    ∀ q ∈ u.ranks, ∀ k < u.rounds, u.env.runRaises q k = false
  raises : ∀ s, u.Reachable s → u.Final s →
    (∃ q ∈ u.ranks, .error ∈ (s q).worker.replied) →
    ∀ r ∈ u.ranks, ∃ g, (s r).server.pc = .left (.remoteError g)

/-- An error reply answers the handle or a bucket. -/
theorem RankInv.error_reply {x : RankState} (hinv : RankInv u rank x)
    (herror : .error ∈ x.worker.replied) : ∃ k, u.replyRaises rank k = true := by
  rw [hinv.worker.replied] at herror
  obtain ⟨k, _, hk⟩ := List.mem_map.mp herror
  refine ⟨k, ?_⟩
  simp only [reply] at hk
  split at hk
  · assumption
  · cases hk

/-- A failure before the last bucket is noticed: the update does not return. -/
theorem outcome_of_failure {q : Rank} {k : Nat} (hq : q ∈ u.ranks) (hk : k + 1 < u.rounds)
    (hraises : u.env.runRaises q k = true) : ∃ g, u.outcome = .remoteError g := by
  rcases outcome_cases u with ⟨g, heq, _, _, _⟩ | ⟨_, hall⟩
  · exact ⟨g, heq⟩
  · have hclean := hall (k + 1) hk q hq
    rw [replyRaises_succ q (by omega), hraises] at hclean
    contradiction

/-- Without a failure before the last bucket the update returns. -/
theorem outcome_of_no_failure (hattach : ∀ rank ∈ u.ranks, u.env.attachRaises rank = false)
    (hruns : ∀ q ∈ u.ranks, ∀ k, k + 1 < u.rounds → u.env.runRaises q k = false) :
    u.outcome = .returned := by
  apply outcome_returned_iff.mpr
  intro g hg q hq
  cases g with
  | zero => exact hattach q hq
  | succ k =>
      rw [replyRaises_succ q (by omega)]
      exact hruns q hq k hg

/-- Where every worker attaches, an error reply answers a call of `run`. -/
theorem RankInv.error_run {x : RankState} (hinv : RankInv u rank x)
    (hattach : u.env.attachRaises rank = false) (herror : .error ∈ x.worker.replied) :
    ∃ k < u.rounds, u.env.runRaises rank k = true := by
  obtain ⟨k, hk⟩ := hinv.error_reply herror
  cases k with
  | zero =>
      rw [replyRaises_zero, hattach] at hk
      contradiction
  | succ k =>
      simp only [replyRaises, Bool.and_eq_true, decide_eq_true_eq] at hk
      exact ⟨k, hk⟩

/-- Success of an update is sound exactly if some failure shows before the last bucket,
or no call of `run` fails for the last bucket: its reply is read and thrown away. -/
theorem successSound_iff (u : Update) (h : u.OnlyWorkersFail)
    (hattach : ∀ rank ∈ u.ranks, u.env.attachRaises rank = false) :
    u.SuccessSound ↔
      (∃ q ∈ u.ranks, ∃ k, k + 1 < u.rounds ∧ u.env.runRaises q k = true) ∨
        ∀ q ∈ u.ranks, u.env.runRaises q (u.rounds - 1) = false := by
  have hpos := rounds_pos u
  constructor
  · intro hsound
    by_contra hcondition
    obtain ⟨hearly, hlast⟩ := not_or.mp hcondition
    have hreturned : u.outcome = .returned := by
      apply outcome_of_no_failure hattach
      intro q hq k hk
      exact Bool.eq_false_iff.mpr fun hraises => hearly ⟨q, hq, k, hk, hraises⟩
    obtain ⟨s, hsteps, hfinal⟩ := (machine_descends u).exists_final Machine.Reachable.init
    apply hlast
    intro q hq
    have hpc := final_left hsteps hfinal h.copies h.start h.quiet q hq
    rw [hreturned] at hpc
    exact hsound.returned s hsteps q hq hpc q hq _ (by omega)
  · intro hcondition
    constructor
    · intro s hs r hr hpc q hq k hk
      have hclean := (rankInv hs r hr).server.clean
      rw [hpc] at hclean
      rcases hcondition with ⟨q', hq', k', hk', hraises⟩ | hlast
      · have := hclean (k' + 1) hk' q' hq'
        rw [replyRaises_succ q' (by omega), hraises] at this
        contradiction
      · rcases Nat.lt_or_ge (k + 1) u.rounds with hlt | hge
        · have := hclean (k + 1) hlt q hq
          rwa [replyRaises_succ q hk] at this
        · obtain rfl : k = u.rounds - 1 := by omega
          exact hlast q hq
    · rintro s hs hfinal ⟨q, hq, herror⟩ r hr
      have hpc := final_left hs hfinal h.copies h.start h.quiet r hr
      have hfailed : ∃ g, u.outcome = .remoteError g := by
        rcases hcondition with ⟨q', hq', k', hk', hraises⟩ | hlast
        · exact outcome_of_failure hq' hk' hraises
        · obtain ⟨k, hk, hraises⟩ := (rankInv hs q hq).error_run (hattach q hq) herror
          have hne : k ≠ u.rounds - 1 := by
            rintro rfl
            rw [hlast q hq] at hraises
            contradiction
          exact outcome_of_failure hq (by omega) hraises
      obtain ⟨g, hg⟩ := hfailed
      exact ⟨g, hg ▸ hpc⟩

/-- One rank, one bucket, and `run` raises. -/
def lastRunFails : Update :=
  singleBucket [] { Environment.faultless with runRaises := fun _ _ => true }

theorem successSound_iff_lastRunFails :
    lastRunFails.SuccessSound ↔
      (∃ q ∈ lastRunFails.ranks, ∃ k, k + 1 < lastRunFails.rounds ∧
          lastRunFails.env.runRaises q k = true) ∨
        ∀ q ∈ lastRunFails.ranks, lastRunFails.env.runRaises q (lastRunFails.rounds - 1) = false :=
  successSound_iff lastRunFails
    { copies := fun _ _ _ h => nomatch h
      start := fun _ _ h => nomatch h
      release := fun _ _ => rfl
      postHook := fun _ _ => rfl }
    fun _ _ => rfl

/-- A whole run of a single rank with one bucket. -/
def wholeRun : List Agent :=
  untilMetadata ++ [.worker 0, .worker 0, .server 0, .server 0, .worker 0, .worker 0, .server 0,
    .server 0, .worker 0, .worker 0, .server 0, .request 0, .server 0, .server 0, .stream 0,
    .server 0]

/-- The only bucket's `run` raises and the update returns. -/
theorem lastRunFails_not_successSound : ¬ lastRunFails.SuccessSound := by
  intro hsound
  obtain ⟨s, hs, hpc⟩ := Machine.Reachable.of_run (M := lastRunFails.machine)
    (P := fun s => (s 0).server.pc = .left .returned) wholeRun (by decide)
  have := hsound.returned s hs 0 (by decide) hpc 0 (by decide) 0 (by decide)
  contradiction

end CheckpointEngine.Update
