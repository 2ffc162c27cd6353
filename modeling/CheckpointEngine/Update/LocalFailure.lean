/-
  `Update.LocalFailure`: what becomes of an update when a copy fails on one rank.

  An exception of `_copy_to_buffer` leads straight into the `finally` block.  No
  message is sent on the way, so the worker keeps waiting for one, and the barrier
  takes the place of the collectives that the other ranks issue.
-/
import CheckpointEngine.Update.Quiescence

set_option autoImplicit false

namespace CheckpointEngine.Update

open CheckpointEngine.Foundation

variable {u : Update} {rank : Rank}

/-- A message after which a worker stops: an exception, or the second `None`. -/
def Terminated (sent : List Message) : Prop := .exception ∈ sent ∨ 2 ≤ sent.count .none

/-- The worker waits for a message, none is in flight, and its server will send no
more. -/
def WorkerStranded (u : Update) (s : State) (r : Rank) : Prop :=
  ((s r).worker.pc = .recvAck ∨ ∃ released, (s r).worker.pc = .recvPayload released) ∧
    (s r).nextMessage = none ∧
    ∀ t, u.machine.Steps s t → (t r).server.sent = (s r).server.sent

/-- A rank that fails by itself strands neither its worker nor its peers. -/
structure NeverStrands (u : Update) : Prop where
  /-- it has told its worker to stop before it leaves -/
  terminated : ∀ s, u.Reachable s → ∀ r ∈ u.ranks, ∀ g,
    (s r).server.pc = .left (.localError g) → Terminated (s r).server.sent
  /-- no worker waits for a message that will not come -/
  served : ∀ s, u.Reachable s → ∀ r ∈ u.ranks, ¬ u.WorkerStranded s r
  /-- no rank answers a collective of another one with a different collective -/
  matched : ∀ s, u.Reachable s → ∀ r ∈ u.ranks, ∀ q ∈ u.ranks,
    ∀ (k : Nat) (c d : Collective), (s r).server.issued[k]? = some c →
      (s q).server.issued[k]? = some d → c.kind = d.kind

/-- A server that is in the `finally` block stays there, for the same reason. -/
theorem exit_stable {s t : State} {r : Rank} {exit : Exit} (hs : u.Reachable s)
    (hst : u.machine.Steps s t) (hpc : (s r).server.pc.exit? = some exit) :
    (t r).server.pc.exit? = some exit := by
  refine Machine.Steps.invariant (I := fun s => (s r).server.pc.exit? = some exit)
    ?_ hs hpc hst
  intro s agent t _ hpc hstep
  obtain ⟨_, x, hmove, rfl⟩ := step_move hstep
  by_cases hown : r = agent.rank
  · subst hown
    rw [setRank_self]
    cases hmove with
    | server hmove =>
        cases hmove with
        | join hpc' _ | barrier hpc' | leave hpc' _ =>
            rw [hpc'] at hpc
            exact hpc
        | recvReply hpc' _ | recvLast hpc' _ | recvRelease hpc' _ | recvFinish hpc' _
        | sendHandle hpc' _ | stage hpc' _ _ | skipStage hpc' _ | stageError hpc' _ _
        | fill hpc' _ | fillError hpc' _ | broadcast hpc' | allReduce hpc' | metadata hpc' _ _
        | exception hpc' _ _ | sendRelease hpc' | sendFinish hpc' =>
            rw [hpc'] at hpc
            cases hpc
    | stream _ | request _ | worker _ => exact hpc
  · rw [setRank_other hown]
    exact hpc

/-- A rank that has failed by itself sends its worker nothing that stops it. -/
theorem localError_silent {x : RankState} {g : Nat} (hinv : RankInv u rank x)
    (hpc : x.server.pc.exit? = some (.localError g)) : ¬ Terminated x.server.sent := by
  obtain ⟨hsends, hfarewell, hvalid⟩ := Pc.sends_of_exit (u := u) hpc
  have hg : g < u.rounds := hvalid hinv.server.valid
  have hnot : ∀ m ∈ x.server.sent, m ≠ .exception ∧ m ≠ .none := by
    rw [hinv.server.history, serverAt, sentAt, hsends, hfarewell]
    simp only [Exit.sends, Exit.farewell, List.append_nil]
    intro m hm
    obtain ⟨k, hk, rfl⟩ := List.mem_map.mp hm
    refine ⟨message_ne_exception u k, ?_⟩
    have hlt := List.mem_range.mp hk
    cases k with
    | zero => simp [message]
    | succ k =>
        rw [message_metadata (by omega)]
        simp
  rintro (hexception | hnone)
  · exact (hnot _ hexception).1 rfl
  · have hzero : x.server.sent.count .none = 0 :=
      List.count_eq_zero.mpr fun hmem => (hnot _ hmem).2 rfl
    omega

/-- The worker of a rank that has failed by itself is left waiting in the end. -/
theorem localError_idle {x : RankState} {g : Nat} (hinv : RankInv u rank x)
    (hpc : x.server.pc.exit? = some (.localError g)) (hworker : WorkerStuck x) :
    Idle u x := by
  obtain ⟨hsends, hfarewell, hvalid⟩ := Pc.sends_of_exit (u := u) hpc
  have hg : g < u.rounds := hvalid hinv.server.valid
  have hhandle : x.server.pc ≠ .sendHandle := by
    intro heq
    rw [heq] at hpc
    cases hpc
  rcases hinv.worker_idle hworker hhandle with ⟨exit, hexited⟩ | hidle
  · exfalso
    have hposition := hinv.worker.position
    have htold := hinv.worker.told
    rw [hexited] at hposition htold
    cases exit with
    | attachError | forced =>
        have hexception := htold.2
        rw [hfarewell] at hexception
        cases hexception
    | unexpectedPayload => exact hposition
    | releaseError | postHookError | returned =>
        have htaken : x.worker.taken ≤ x.server.pc.sends u := htold
        have hposition := hposition.1
        simp only [Exit.sends] at hsends
        omega
  · exact hidle

/-- After a local failure a state can be reached in which the rank's worker is
stranded. -/
theorem localError_strands_worker {s : State} {r : Rank} {g : Nat} (hs : u.Reachable s)
    (hr : r ∈ u.ranks) (hpc : (s r).server.pc.exit? = some (.localError g)) :
    ∃ t, u.Reachable t ∧ u.WorkerStranded t r := by
  obtain ⟨t, hst, hfinal⟩ := (machine_descends u).exists_final hs
  have ht := hs.steps hst
  have hidle := localError_idle (rankInv ht r hr) (exit_stable hs hst hpc)
    (workerStuck (Final.agents hfinal hr).2.2.2)
  refine ⟨t, ht, ?_, hidle.nothing, ?_⟩
  · rcases hidle.pc with ⟨hack, _⟩ | ⟨released, hpayload, _⟩
    · exact .inl hack
    · exact .inr ⟨released, hpayload⟩
  · intro t' hsteps
    rw [hfinal.steps hsteps]

/-- The collective a failed rank issues instead of the ones of its turn: a peer that
goes through the turn is left in a broadcast that the failed rank answers with a
barrier. -/
theorem localError_mismatch {s : State} (hs : u.Reachable s) {r q : Rank} (hr : r ∈ u.ranks)
    (hq : q ∈ u.ranks) {g : Nat} (hpc : (s r).server.pc = .awaitBarrier (.localError g))
    (hpeer : 2 * g < (s q).server.pc.issues u) :
    ((s r).server.issued[2 * g]?).map Collective.kind = some .barrier ∧
      ((s q).server.issued[2 * g]?).map Collective.kind =
        some (.broadcast (u.turn g).receiver (u.turn g).bucket.size) := by
  constructor
  · rw [(rankInv hs r hr).server.history, hpc]
    simp [serverAt, issuedAt, Pc.issues, Exit.issues, Pc.barriers, Collective.kind]
  · rw [(rankInv hs q hq).server.issued_get hpeer, collective_even]
    rfl

/-- Whenever a rank fails by itself, its worker is not told to stop, and a state can
be reached in which the worker waits for a message that will not come; and a peer that has
issued the broadcast of the turn finds the rank in its barrier. -/
theorem localFailure_strands (u : Update) {s : State} (hs : u.Reachable s) {r : Rank}
    (hr : r ∈ u.ranks) {g : Nat} (hpc : (s r).server.pc.exit? = some (.localError g)) :
    ¬ u.NeverStrands ∧ (∀ t, u.machine.Steps s t → ¬ Terminated (t r).server.sent) ∧
      ∀ t, u.machine.Steps s t → (t r).server.pc = .awaitBarrier (.localError g) →
        ∀ q ∈ u.ranks, 2 * g < (t q).server.pc.issues u →
          ((t r).server.issued[2 * g]?).map Collective.kind = some .barrier ∧
            ((t q).server.issued[2 * g]?).map Collective.kind =
              some (.broadcast (u.turn g).receiver (u.turn g).bucket.size) := by
  refine ⟨fun hnever => ?_, fun t hst => ?_, fun t hst hawaits q hq hpeer => ?_⟩
  · obtain ⟨t, ht, hstranded⟩ := localError_strands_worker hs hr hpc
    exact hnever.served t ht r hr hstranded
  · exact localError_silent (rankInv (hs.steps hst) r hr) (exit_stable hs hst hpc)
  · exact localError_mismatch (hs.steps hst) hr hq hawaits hpeer

/-- Two ranks, and the first copy of rank 0 fails. -/
def firstCopyFails : Update :=
  singleBucket [1] { Environment.faultless with
    copyToBuffer := fun rank i => if rank = 0 ∧ i = 0 then none else some fun _ => 0 }

/-- A run up to the failure. -/
def untilFailure : List Agent := [.request 0, .server 0, .server 0, .server 0]

theorem localFailure_strands_firstCopyFails :
    ∃ s, firstCopyFails.Reachable s ∧ ¬ firstCopyFails.NeverStrands ∧
      (∀ t, firstCopyFails.machine.Steps s t → ¬ Terminated (t 0).server.sent) ∧
      ∀ t, firstCopyFails.machine.Steps s t →
        (t 0).server.pc = .awaitBarrier (.localError 0) →
          ∀ q ∈ firstCopyFails.ranks, 2 * 0 < (t q).server.pc.issues firstCopyFails →
            ((t 0).server.issued[2 * 0]?).map Collective.kind = some .barrier ∧
              ((t q).server.issued[2 * 0]?).map Collective.kind =
                some (.broadcast (firstCopyFails.turn 0).receiver
                  (firstCopyFails.turn 0).bucket.size) := by
  obtain ⟨s, hs, hpc⟩ := Machine.Reachable.of_run (M := firstCopyFails.machine)
    (P := fun s => (s 0).server.pc.exit? = some (.localError 0)) untilFailure (by decide)
  exact ⟨s, hs, localFailure_strands firstCopyFails hs (by decide) hpc⟩

/-- The worker of rank 0 is stranded by the failed copy. -/
theorem firstCopyFails_strands : ¬ firstCopyFails.NeverStrands := by
  intro hnever
  obtain ⟨s, hs, hpc⟩ := Machine.Reachable.of_run (M := firstCopyFails.machine)
    (P := fun s => (s 0).server.pc.exit? = some (.localError 0)) untilFailure (by decide)
  obtain ⟨t, ht, hstranded⟩ := localError_strands_worker hs (by decide) hpc
  exact hnever.served t ht 0 (by decide) hstranded

end CheckpointEngine.Update
