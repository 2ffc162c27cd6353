/-
  `Update.Progress`: every run of an update is finite, and where it can stop.

  The measure counts the calls that the server, its stream, the request thread and
  the worker still have before them.  Where no agent can move, a rank waits for a
  collective, has left, or waits on its socket for a worker that has ended.
-/
import CheckpointEngine.Update.Invariant
import Mathlib.Algebra.Order.BigOperators.Group.List
import Mathlib.Algebra.Order.Group.Nat
import Mathlib.Data.List.MinMax

set_option autoImplicit false

namespace CheckpointEngine.Update

open CheckpointEngine.Foundation

variable {u : Update} {rank : Rank}

/-! ## The measure -/

/-- The calls a server has before it, at most. -/
def Pc.todo (u : Update) : Pc → Nat
  | .sendHandle => 6 * u.rounds + 10
  | .stage g => 6 * (u.rounds - g) + 9
  | .fill g => 6 * (u.rounds - g) + 8
  | .broadcast g => 6 * (u.rounds - g) + 7
  | .recvReply g => 6 * (u.rounds - g) + 6
  | .allReduce g => 6 * (u.rounds - g) + 5
  | .synchronize g => 6 * (u.rounds - g) + 4
  | .recvLast => 9
  | .sendRelease => 8
  | .recvRelease => 7
  | .sendFinish => 6
  | .recvFinish => 5
  | .join _ => 3
  | .barrier _ => 2
  | .awaitBarrier _ => 1
  | .left _ => 0

/-- The steps a request thread has before it, at most. -/
def RequestPc.todo : RequestPc → Nat
  | .called => 2
  | .started => 1
  | .ended _ => 0

/-- The worker has read something it has not dealt with. -/
def WorkerPc.busy : WorkerPc → Nat
  | .attach | .run _ | .release | .finish => 1
  | _ => 0

/-- The measure of a rank. -/
def rankMeasure (u : Update) (x : RankState) : Nat :=
  x.server.pc.todo u + (2 * u.rounds + 1 - x.device.executed) + x.request.todo +
    (2 * (u.rounds + 3 - x.worker.taken) + x.worker.pc.busy)

/-- The measure of a state. -/
def measure (u : Update) (s : State) : Nat := (u.ranks.map fun q => u.rankMeasure (s q)).sum

theorem todo_enter {g : Nat} (h : g ≤ u.rounds) :
    (u.enter g).todo u = 6 * (u.rounds - g) + 9 :=
  enter_at (Pc.todo u) (fun g => 6 * (u.rounds - g) + 9) h rfl (by simp [Pc.todo])

/-- A step of a server is one call less to come. -/
theorem ServerMove.todo {x : RankState} {s : Server} {d : Device}
    (hmove : ServerMove u rank x s d) (hvalid : x.server.pc.Valid u) :
    s.pc.todo u < x.server.pc.todo u ∧ d.executed = x.device.executed := by
  cases hmove with
  | sendHandle hpc _ =>
      rw [hpc]
      refine ⟨?_, rfl⟩
      rw [show Pc.todo u _ = _ from todo_enter (Nat.zero_le _)]
      simp only [Pc.todo]
      omega
  | @metadata g hpc _ _ =>
      rw [hpc] at hvalid ⊢
      have hnext : g + 1 ≤ u.rounds := hvalid
      refine ⟨?_, rfl⟩
      rw [show Pc.todo u _ = _ from todo_enter hnext]
      simp only [Pc.todo]
      omega
  | fill hpc hfill =>
      rw [hpc]
      rcases fillBuffer_cases hfill with ⟨_, _, rfl, _⟩ | ⟨_, rfl⟩
      · exact ⟨by simp [Pc.todo], rfl⟩
      · exact ⟨by simp [Pc.todo], rfl⟩
  | stageError hpc _ _ | fillError hpc _ | exception hpc _ _ =>
      rw [hpc]
      refine ⟨?_, rfl⟩
      simp only [Pc.todo]
      omega
  | stage hpc _ _ | skipStage hpc _ | broadcast hpc | recvReply hpc _ | allReduce hpc
  | recvLast hpc _ | sendRelease hpc | recvRelease hpc _ | sendFinish hpc | recvFinish hpc _
  | join hpc _ | barrier hpc | leave hpc _ =>
      rw [hpc]
      exact ⟨by simp [Pc.todo], rfl⟩

theorem RequestMove.todo {x : RankState} {request : RequestPc} {w : Worker}
    (hmove : RequestMove u rank x request w)
    (hr : RequestInv u rank x.request x.worker.pc) :
    request.todo < x.request.todo ∧ w.taken = x.worker.taken ∧
      w.pc.busy = x.worker.pc.busy := by
  cases hmove with
  | raisesFirst hrequest _ =>
      rw [hrequest]
      exact ⟨by simp [RequestPc.todo], rfl, rfl⟩
  | starts hrequest _ =>
      rw [hrequest] at hr ⊢
      refine ⟨by simp [RequestPc.todo], rfl, ?_⟩
      generalize x.worker.pc = pc at hr
      cases hr
      rfl
  | ends hrequest _ _ =>
      rw [hrequest]
      exact ⟨by simp [RequestPc.todo], rfl, rfl⟩

/-- No more than `rounds + 3` messages are ever sent. -/
theorem ServerInv.sent_le {x : RankState} (hs : ServerInv u rank x.server x.device) :
    x.server.sent.length ≤ u.rounds + 3 := by
  have hvalid := hs.valid
  rw [hs.history, serverAt, length_sentAt]
  revert hvalid
  cases x.server.pc with
  | join exit | barrier exit | awaitBarrier exit | left exit =>
      intro hvalid
      cases exit with
      | returned => exact Nat.le_refl _
      | remoteError g =>
          have := hvalid.1
          simp only [Pc.sends, Exit.sends, Pc.farewell, Pc.exit?, Option.map_some,
            Option.getD_some, Exit.farewell, List.length_singleton]
          omega
      | localError g =>
          have : g < u.rounds := hvalid
          simp only [Pc.sends, Exit.sends, Pc.farewell, Pc.exit?, Option.map_some,
            Option.getD_some, Exit.farewell, List.length_nil]
          omega
  | _ =>
      intro hvalid
      simp only [Pc.Valid] at hvalid
      simp only [Pc.sends, Pc.farewell, Pc.exit?, Option.map_none, Option.getD_none,
        List.length_nil]
      omega

/-- The loop issues two collectives a turn. -/
theorem Pc.Valid.issues_le {pc : Pc} (hvalid : pc.Valid u) : pc.issues u ≤ 2 * u.rounds := by
  cases pc with
  | join exit | barrier exit | awaitBarrier exit | left exit =>
      cases exit with
      | returned => exact Nat.le_refl _
      | remoteError g =>
          have := hvalid.1
          simp only [Pc.issues, Exit.issues]
          omega
      | localError g =>
          have : g < u.rounds := hvalid
          simp only [Pc.issues, Exit.issues]
          omega
  | _ =>
      simp only [Pc.Valid] at hvalid
      simp only [Pc.issues]
      omega

/-- No more than `2 * rounds + 1` collectives are ever issued. -/
theorem ServerInv.issued_le {x : RankState} (hs : ServerInv u rank x.server x.device) :
    x.server.issued.length ≤ 2 * u.rounds + 1 := by
  have hissues := hs.valid.issues_le
  have hbarriers : x.server.pc.barriers.length ≤ 1 := by
    cases x.server.pc <;> simp [Pc.barriers]
  rw [hs.history, serverAt, length_issuedAt]
  exact Nat.add_le_add hissues hbarriers

theorem WorkerMove.todo {x : RankState} {w : Worker} (hmove : WorkerMove u rank x w)
    (hs : ServerInv u rank x.server x.device) :
    2 * (u.rounds + 3 - w.taken) + w.pc.busy <
      2 * (u.rounds + 3 - x.worker.taken) + x.worker.pc.busy := by
  have hsent := hs.sent_le
  have hbusy : ∀ pc : WorkerPc, pc.busy ≤ 1 := by
    intro pc
    cases pc <;> simp [WorkerPc.busy]
  cases hmove with
  | recvHandle hpc hmessage =>
      have htaken := (List.getElem?_eq_some_iff.mp hmessage).1
      have hattach := hbusy .attach
      rw [hpc]
      simp only [WorkerPc.busy] at hattach ⊢
      omega
  | recvAck hpc hmessage =>
      have htaken := (List.getElem?_eq_some_iff.mp hmessage).1
      rw [hpc]
      simp only [WorkerPc.busy]
      omega
  | @recvPayload released answer hpc hmessage =>
      have htaken := (List.getElem?_eq_some_iff.mp hmessage).1
      have htarget := hbusy (payloadTarget released answer)
      rw [hpc]
      simp only [show (WorkerPc.recvPayload released).busy = 0 from rfl]
      omega
  | attachError hpc _ | attach hpc _ | run hpc | releaseError hpc _ | release hpc _
  | finishError hpc _ | finish hpc _ =>
      rw [hpc]
      simp [WorkerPc.busy, Worker.reply]

/-- Every move of a rank lowers its measure. -/
theorem Move.measure_lt {s : State} {x : RankState} (hmove : Move u s rank x)
    (hinv : RankInv u rank (s rank)) : u.rankMeasure x < u.rankMeasure (s rank) := by
  obtain ⟨hs, hw, hr⟩ := hinv
  cases hmove with
  | server hmove =>
      obtain ⟨htodo, hexecuted⟩ := hmove.todo hs.valid
      simp only [rankMeasure, hexecuted]
      omega
  | stream hmove =>
      obtain ⟨hexecuted, hlt⟩ := hmove.executed
      have hle := hs.issued_le
      simp only [rankMeasure, hexecuted]
      omega
  | request hmove =>
      obtain ⟨htodo, htaken, hbusy⟩ := hmove.todo hr
      simp only [rankMeasure, htaken, hbusy]
      omega
  | worker hmove =>
      have htodo := hmove.todo hs
      simp only [rankMeasure]
      omega

/-- Every step lowers the measure: no run is infinite. -/
theorem machine_descends (u : Update) : u.machine.Descends u.measure := by
  intro s agent t hs hstep
  obtain ⟨hmem, x, hmove, rfl⟩ := step_move hstep
  have hlt := hmove.measure_lt (rankInv hs _ hmem)
  apply List.sum_lt_sum
  · intro q _
    by_cases hown : q = agent.rank
    · rw [hown, setRank_self]
      exact Nat.le_of_lt hlt
    · rw [setRank_other hown]
  · exact ⟨agent.rank, hmem, by rw [setRank_self]; exact hlt⟩

/-! ## Ranks move together -/

/-- When a rank has executed the `all_reduce` of turn `g`, every rank has executed
the turn's broadcast. -/
theorem synced {s : State} (h : u.Reachable s) :
    ∀ r ∈ u.ranks, ∀ q ∈ u.ranks, ∀ g, 2 * g + 2 ≤ (s r).device.executed →
      2 * g + 1 ≤ (s q).device.executed := by
  refine h.invariant (I := fun s => ∀ r ∈ u.ranks, ∀ q ∈ u.ranks, ∀ g,
    2 * g + 2 ≤ (s r).device.executed → 2 * g + 1 ≤ (s q).device.executed) ?_ ?_
  · intro r _ q _ g hg
    exact absurd hg (Nat.not_succ_le_zero _)
  · intro s agent t hs hI hstep r hr q hq g hg
    obtain ⟨hmem, x, hmove, rfl⟩ := step_move hstep
    -- what has been executed stays executed
    have hgrow : (s q).device.executed ≤ (setRank s agent.rank x q).device.executed := by
      by_cases hown : q = agent.rank
      · subst hown
        rw [setRank_self]
        cases hmove with
        | server hmove => exact (hmove.todo (rankInv hs _ hmem).server.valid).2.ge
        | stream hmove => exact hmove.executed.1 ▸ Nat.le_succ _
        | request _ | worker _ => exact Nat.le_refl _
      · rw [setRank_other hown]
    refine Nat.le_trans ?_ hgrow
    by_cases hown : r = agent.rank
    · subst hown
      rw [setRank_self] at hg
      cases hmove with
      | server hmove =>
          rw [(hmove.todo (rankInv hs _ hmem).server.valid).2] at hg
          exact hI _ hr q hq g hg
      | stream hmove =>
          obtain ⟨hexecuted, _⟩ := hmove.executed
          rw [hexecuted] at hg
          rcases Nat.lt_or_ge (2 * g + 1) (s agent.rank).device.executed with hlt | hge
          · exact hI _ hr q hq g hlt
          · have hk : (s agent.rank).device.executed = 2 * g + 1 := by omega
            have hs' := (rankInv hs _ hmem).server
            cases hmove with
            | allReduce _ hstarted => exact hk ▸ (hstarted q hq).1
            | source hissued | broadcast _ hissued _ =>
                cases hs'.pending hissued with
                | broadcast heven _ _ _ => omega
                | allReduce _ _ _ hcollective => cases hcollective
                | barrier _ _ hcollective => cases hcollective
            | barrier hissued hstarted => exact hk ▸ (hstarted q hq).1
      | request _ | worker _ => exact hI _ hr q hq g hg
    · rw [setRank_other hown] at hg
      exact hI r hr q hq g hg

end CheckpointEngine.Update
