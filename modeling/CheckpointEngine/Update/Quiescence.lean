/-
  `Update.Quiescence`: the states in which no agent can move.

  A rank that is stuck is at a collective, has left, or waits on its socket for a
  worker that has ended without a reply.  The ranks that wait for a collective wait
  for the slowest one among them, so there is always one that does not wait.
-/
import CheckpointEngine.Update.Progress

set_option autoImplicit false

namespace CheckpointEngine.Update

open CheckpointEngine.Foundation

variable {u : Update} {rank : Rank}

/-! ## Agents that cannot move -/

/-- The server is about to call `socket.recv()`. -/
def Pc.Receiving : Pc → Prop
  | .recvReply _ | .recvLast | .recvRelease | .recvFinish => True
  | _ => False

/-- Why a server does not move. -/
inductive ServerStuck (x : RankState) : Prop where
  | unconnected (hpc : x.server.pc = .sendHandle) (hworker : x.worker.pc = .absent)
  | reply (hpc : x.server.pc.Receiving) (hreply : x.nextReply = none)
  | collectives {g : Nat} (hpc : x.server.pc = .synchronize g) (hsync : ¬ x.Synchronized)
  | request {exit : Exit} (hpc : x.server.pc = .join exit)
      (hrequest : ∀ raised, x.request ≠ .ended raised)
  | barrier {exit : Exit} (hpc : x.server.pc = .awaitBarrier exit) (hsync : ¬ x.Synchronized)
  | left {exit : Exit} (hpc : x.server.pc = .left exit)

theorem serverStuck {x : RankState} (h : u.serverStep rank x = none) : ServerStuck x := by
  cases hpc : x.server.pc with
  | sendHandle =>
      simp only [serverStep, hpc] at h
      split at h
      · rename_i hworker
        exact .unconnected hpc hworker
      · contradiction
  | stage g =>
      simp only [serverStep, hpc] at h
      split at h
      · split at h <;> contradiction
      · contradiction
  | fill g =>
      simp only [serverStep, hpc] at h
      split at h <;> contradiction
  | recvReply g | recvLast | recvRelease | recvFinish =>
      simp only [serverStep, hpc] at h
      exact .reply (by rw [hpc]; trivial) (Option.map_eq_none_iff.mp h)
  | synchronize g =>
      simp only [serverStep, hpc] at h
      split at h
      · split at h <;> contradiction
      · rename_i hsync
        exact .collectives hpc hsync
  | join exit =>
      simp only [serverStep, hpc] at h
      split at h
      · contradiction
      · rename_i hrequest
        exact .request hpc hrequest
  | awaitBarrier exit =>
      simp only [serverStep, hpc] at h
      split at h
      · contradiction
      · rename_i hsync
        exact .barrier hpc hsync
  | left exit => exact .left hpc
  | broadcast g | allReduce g | sendRelease | sendFinish | barrier exit =>
      simp only [serverStep, hpc] at h
      contradiction

/-- Why a worker does not move. -/
inductive WorkerStuck (x : RankState) : Prop where
  | absent (hpc : x.worker.pc = .absent)
  | message (hpc : x.worker.pc = .recvHandle ∨ x.worker.pc = .recvAck ∨
      ∃ released, x.worker.pc = .recvPayload released) (hmessage : x.nextMessage = none)
  | exited {exit : WorkerExit} (hpc : x.worker.pc = .exited exit)

theorem workerStuck {x : RankState} (h : u.workerStep rank x = none) : WorkerStuck x := by
  cases hpc : x.worker.pc with
  | absent => exact .absent hpc
  | exited exit => exact .exited hpc
  | recvHandle =>
      simp only [workerStep, hpc] at h
      exact .message (.inl hpc) (Option.map_eq_none_iff.mp h)
  | recvAck =>
      simp only [workerStep, hpc] at h
      exact .message (.inr (.inl hpc)) (Option.map_eq_none_iff.mp h)
  | recvPayload released =>
      simp only [workerStep, hpc] at h
      exact .message (.inr (.inr ⟨released, hpc⟩)) (Option.map_eq_none_iff.mp h)
  | attach | release | finish =>
      simp only [workerStep, hpc] at h
      split at h <;> contradiction
  | run payload =>
      simp only [workerStep, hpc] at h
      contradiction

/-- Why the request thread does not move. -/
inductive RequestStuck (u : Update) (rank : Rank) (x : RankState) : Prop where
  | ended {raised : Bool} (hrequest : x.request = .ended raised)
  | waits {raisesLater : Bool} (hrequest : x.request = .started)
      (hreq : u.env.reqFunc rank = .starts true raisesLater)
      (hworker : ∀ exit, x.worker.pc ≠ .exited exit)

theorem requestStuck {x : RankState} (h : u.requestStep rank x = none)
    (hr : RequestInv u rank x.request x.worker.pc) : RequestStuck u rank x := by
  cases hrequest : x.request with
  | ended raised => exact .ended hrequest
  | called =>
      simp only [requestStep, hrequest] at h
      cases hreq : u.env.reqFunc rank with
      | raisesFirst =>
          rw [hreq] at h
          contradiction
      | starts waits raisesLater =>
          rw [hreq] at h
          contradiction
  | started =>
      rw [hrequest] at hr
      cases hr with
      | @started waits raisesLater _ hreq _ =>
          simp only [requestStep, hrequest, hreq] at h
          cases waits with
          | false => contradiction
          | true =>
              refine .waits hrequest hreq fun exit hexit => ?_
              rw [hexit] at h
              contradiction

/-! ## A stuck rank by itself -/

/-- A worker that waits for a message. -/
structure Idle (u : Update) (x : RankState) : Prop where
  nothing : x.nextMessage = none
  taken : x.worker.taken = x.server.pc.sends u
  farewell : x.server.pc.farewell = []
  pc : (x.worker.pc = .recvAck ∧ x.worker.taken = 1) ∨
    ∃ released, x.worker.pc = .recvPayload released ∧
      x.worker.taken = x.worker.replied.length

/-- A worker that has been started and does not move has ended, or has read
everything its server has sent. -/
theorem RankInv.worker_idle {x : RankState} (hinv : RankInv u rank x)
    (hstuck : WorkerStuck x) (hpc : x.server.pc ≠ .sendHandle) :
    (∃ exit, x.worker.pc = .exited exit) ∨ Idle u x := by
  have hposition := hinv.worker.position
  have htold := hinv.worker.told
  cases hstuck with
  | absent habsent => exact absurd habsent (hinv.worker.present hpc)
  | exited hexited => exact .inl ⟨_, hexited⟩
  | message hreceiving hmessage =>
      right
      have hread : x.server.sent.length ≤ x.worker.taken :=
        List.getElem?_eq_none_iff.mp hmessage
      rw [hinv.server.history, serverAt, length_sentAt] at hread
      have hsent : 0 < x.server.pc.sends u := by
        revert hpc
        cases x.server.pc with
        | sendHandle => exact fun h => absurd rfl h
        | join exit | barrier exit | awaitBarrier exit | left exit =>
            intro _
            cases exit <;> exact Nat.succ_pos _
        | _ => exact fun _ => Nat.succ_pos _
      rcases hreceiving with hpc' | hpc' | ⟨released, hpc'⟩
      · rw [hpc'] at hposition
        have := hposition.1
        omega
      · rw [hpc'] at hposition htold
        have htaken : x.worker.taken ≤ x.server.pc.sends u := htold
        have hnone : x.server.pc.farewell.length = 0 := by omega
        exact ⟨hmessage, by omega, List.length_eq_zero_iff.mp hnone, .inl ⟨hpc', hposition.1⟩⟩
      · rw [hpc'] at hposition htold
        have htaken : x.worker.taken ≤ x.server.pc.sends u := htold
        have hnone : x.server.pc.farewell.length = 0 := by omega
        refine ⟨hmessage, by omega, List.length_eq_zero_iff.mp hnone,
          .inr ⟨released, hpc', ?_⟩⟩
        cases released with
        | false => exact hposition.1
        | true =>
            obtain ⟨htaken, hreplies, _⟩ := hposition
            omega

/-- At a `recv` the server has read all replies but one. -/
theorem Pc.Receiving.sends {pc : Pc} (h : pc.Receiving) :
    pc.sends u = pc.receives u + 1 ∧ pc.farewell = [] ∧ pc ≠ .sendHandle := by
  cases pc with
  | recvReply g => exact ⟨rfl, rfl, by simp⟩
  | recvLast | recvRelease | recvFinish => exact ⟨rfl, rfl, by simp⟩
  | _ => exact h.elim

/-- The replies read before a `recv` tell which one it is. -/
theorem Pc.Receiving.receives {pc : Pc} (h : pc.Receiving) (hvalid : pc.Valid u) :
    pc.receives u ≤ u.rounds ∨ (pc = .recvRelease ∧ pc.receives u = u.rounds + 1) ∨
      (pc = .recvFinish ∧ pc.receives u = u.rounds + 2) := by
  cases pc with
  | recvReply g => exact .inl (Nat.le_of_lt hvalid)
  | recvLast => exact .inl (Nat.le_refl _)
  | recvRelease => exact .inr (.inl ⟨rfl, rfl⟩)
  | recvFinish => exact .inr (.inr ⟨rfl, rfl⟩)
  | _ => exact h.elim

/-- A server that waits for a reply for ever waits behind a worker that has ended
while it released the buffer or in the post hook. -/
theorem RankInv.recv_stuck {x : RankState} (hinv : RankInv u rank x)
    (hreceiving : x.server.pc.Receiving) (hreply : x.nextReply = none)
    (hworker : WorkerStuck x) :
    (x.server.pc = .recvRelease ∧ x.worker.pc = .exited .releaseError) ∨
      (x.server.pc = .recvFinish ∧ x.worker.pc = .exited .postHookError) := by
  obtain ⟨hsends, hfarewell, hhandle⟩ := hreceiving.sends (u := u)
  have hreceived := hinv.server.received_eq
  have hreplies : x.worker.replied.length = x.server.pc.receives u := by
    have hle : x.worker.replied.length ≤ x.server.received := List.getElem?_eq_none_iff.mp hreply
    have := hinv.worker.received
    omega
  have hposition := hinv.worker.position
  have htold := hinv.worker.told
  have hwhich := hreceiving.receives hinv.server.valid
  rcases hinv.worker_idle hworker hhandle with ⟨exit, hexited⟩ | hidle
  · rw [hexited] at hposition htold
    cases exit with
    | attachError | forced =>
        have hexception := htold.2
        rw [hfarewell] at hexception
        cases hexception
    | unexpectedPayload => exact hposition.elim
    | releaseError =>
        obtain ⟨_, hcount, _⟩ := hposition
        rcases hwhich with hle | ⟨hpc, _⟩ | ⟨_, heq⟩
        · omega
        · exact .inl ⟨hpc, hexited⟩
        · omega
    | postHookError =>
        obtain ⟨_, hcount, _⟩ := hposition
        rcases hwhich with hle | ⟨_, heq⟩ | ⟨hpc, _⟩
        · omega
        · omega
        · exact .inr ⟨hpc, hexited⟩
    | returned =>
        obtain ⟨_, hcount, _⟩ := hposition
        rcases hwhich with hle | ⟨_, heq⟩ | ⟨_, heq⟩ <;> omega
  · -- a worker that waits for a message has replied to all but it
    have htaken := hidle.taken
    rcases hidle.pc with ⟨hpc, hone⟩ | ⟨released, hpc, hcount⟩
    · rw [hpc] at hposition
      have := hposition.2.1
      omega
    · omega

/-- A server that joins its request thread does not wait for ever, unless it has
failed itself. -/
theorem RankInv.join_stuck {x : RankState} {exit : Exit} (hinv : RankInv u rank x)
    (hpc : x.server.pc = .join exit) (hexit : ∀ g, exit ≠ .localError g)
    (hrunning : ∀ raised, x.request ≠ .ended raised) (hrequest : RequestStuck u rank x)
    (hworker : WorkerStuck x) : False := by
  cases hrequest with
  | ended hended => exact hrunning _ hended
  | waits _ _ hrunning =>
      have hposition := hinv.worker.position
      rcases hinv.worker_idle hworker (by simp [hpc]) with ⟨exit', hexited⟩ | hidle
      · exact hrunning exit' hexited
      · have hfarewell := hidle.farewell
        have htaken := hidle.taken
        rw [hpc] at hfarewell htaken
        cases exit with
        | localError g => exact hexit g rfl
        | remoteError g => cases hfarewell
        | returned =>
            have hall : x.worker.taken = u.rounds + 3 := htaken
            rcases hidle.pc with ⟨_, hone⟩ | ⟨released, hpc', hcount⟩
            · omega
            · rw [hpc'] at hposition
              cases released with
              | false =>
                  have := hposition.2.2.1
                  omega
              | true =>
                  have := hposition.1
                  omega

/-! ## The outcome of an update -/

/-- Where an update without local failures ends: at the first turn that finds an
error, or behind the last turn. -/
def outcome (u : Update) : Exit :=
  match (List.range u.rounds).find? fun g => !decide (u.Clean g) with
  | some g => .remoteError g
  | none => .returned

/-- The turns the failures allow an update to go through are those before its
outcome. -/
theorem outcome_cases (u : Update) :
    (∃ g, u.outcome = .remoteError g ∧ g < u.rounds ∧ ¬ u.Clean g ∧
        ∀ k < g, u.Clean k) ∨
      (u.outcome = .returned ∧ ∀ k < u.rounds, u.Clean k) := by
  unfold outcome
  cases hfind : (List.range u.rounds).find? fun g => !decide (u.Clean g) with
  | none =>
      right
      refine ⟨rfl, fun k hk => ?_⟩
      have := List.find?_eq_none.mp hfind k (List.mem_range.mpr hk)
      simpa using this
  | some g =>
      left
      obtain ⟨hg, i, hi, hget, hbefore⟩ := List.find?_eq_some_iff_getElem.mp hfind
      simp only [List.length_range] at hi
      simp only [List.getElem_range] at hget hbefore
      subst hget
      exact ⟨i, rfl, hi, by simpa using hg, fun k hk => by simpa using hbefore k hk⟩

theorem outcome_returned_iff : u.outcome = .returned ↔ ∀ g < u.rounds, u.Clean g := by
  rcases outcome_cases u with ⟨g, heq, hg, hdirty, _⟩ | ⟨heq, hall⟩
  · constructor
    · intro hreturned
      rw [heq] at hreturned
      cases hreturned
    · intro hall
      exact absurd (hall g hg) hdirty
  · exact ⟨fun _ => hall, fun _ => heq⟩

/-- An exit that the failures allow is the outcome, or a local failure. -/
theorem Exit.eq_outcome {exit : Exit} (hvalid : exit.Valid u)
    (hclean : ∀ g < exit.cleared u, u.Clean g) (hlocal : ∀ g, exit ≠ .localError g) :
    exit = u.outcome := by
  rcases outcome_cases u with ⟨g, houtcome, hg, hdirty, hbefore⟩ | ⟨houtcome, hall⟩
  · rw [houtcome]
    cases exit with
    | returned => exact absurd (hclean g hg) hdirty
    | localError k => exact absurd rfl (hlocal k)
    | remoteError k =>
        have hle : k ≤ g := Nat.le_of_not_lt fun hlt => hdirty (hclean g hlt)
        have hge : g ≤ k := Nat.le_of_not_lt fun hlt => hvalid.2 (hbefore k hlt)
        rw [Nat.le_antisymm hle hge]
  · rw [houtcome]
    cases exit with
    | returned => rfl
    | localError k => exact absurd rfl (hlocal k)
    | remoteError k => exact absurd (hall k hvalid.1) hvalid.2

/-- A server that stops without a local failure, stops at the outcome. -/
theorem ServerInv.stops {s : Server} {d : Device} (hs : ServerInv u rank s d)
    (hlocal : ∀ g, s.pc.exit? ≠ some (.localError g)) (exit : Exit)
    (hpc : s.pc.exit? = some exit) : exit = u.outcome := by
  have hvalid := hs.valid
  have hclean := hs.clean
  have hexit : exit.Valid u ∧ ∀ g < exit.cleared u, u.Clean g := by
    revert hvalid hclean hpc
    cases s.pc with
    | join _ | barrier _ | awaitBarrier _ | left _ =>
        intro hpc hvalid hclean
        cases hpc
        exact ⟨hvalid, hclean⟩
    | _ => exact fun hpc => nomatch hpc
  exact Exit.eq_outcome hexit.1 hexit.2 fun g hg => hlocal g (hg ▸ hpc)

/-- A turn that is begun is completed before the update ends. -/
theorem turn_le_outcome {g : Nat} (hg : g < u.rounds) (hclean : ∀ i < g, u.Clean i) :
    2 * g + 2 ≤ u.outcome.issues u := by
  rcases outcome_cases u with ⟨g', heq, _, hdirty, _⟩ | ⟨heq, _⟩
  · rw [heq]
    have : g ≤ g' := Nat.le_of_not_lt fun hlt => hdirty (hclean g' hlt)
    simp only [Exit.issues]
    omega
  · rw [heq]
    simp only [Exit.issues]
    omega

/-- No copy out of the registered memory fails. -/
def CopiesSucceed (u : Update) : Prop :=
  ∀ rank ∈ u.ranks, ∀ i, u.env.copyToBuffer rank i ≠ none

/-- Without failing copies no server fails by itself. -/
theorem exit_not_local (hcopies : u.CopiesSucceed) {s : State} (h : u.Reachable s) :
    ∀ q ∈ u.ranks, ∀ g, (s q).server.pc.exit? ≠ some (.localError g) := by
  refine rank_invariant (P := fun _ x => ∀ g, x.server.pc.exit? ≠ some (.localError g))
    ?_ ?_ h
  · intro q _ g hg
    cases hg
  · intro s rank x _ hrank hall hmove
    have hx := hall rank hrank
    cases hmove with
    | server hmove =>
        cases hmove with
        | stageError _ _ hcopy => exact absurd hcopy (hcopies rank hrank _)
        | @fillError g _ hfill =>
            simp only [fillBuffer] at hfill
            split at hfill
            · split at hfill
              · exact absurd (Option.map_eq_none_iff.mp hfill) (hcopies rank hrank _)
              · contradiction
            · contradiction
        | sendHandle _ _ | metadata _ _ _ =>
            intro g hg
            simp only [enter] at hg
            split at hg <;> cases hg
        | join hpc _ | barrier hpc | leave hpc _ =>
            rw [hpc] at hx
            exact hx
        | _ =>
            intro g hg
            cases hg
    | stream _ | request _ | worker _ => exact hx

/-! ## All ranks together -/

/-- Every rank that acts has a worker: `req_func` reaches it. -/
def WorkersStart (u : Update) : Prop :=
  ∀ rank ∈ u.ranks, u.env.reqFunc rank ≠ .raisesFirst

/-- Where a rank stands when no agent can move. -/
inductive Halted (u : Update) (x : RankState) : Prop where
  | left (hpc : x.server.pc = .left u.outcome)
  | barrier (hpc : x.server.pc = .awaitBarrier u.outcome)
      (hsync : x.device.executed < x.server.issued.length)
  | collectives {g : Nat} (hpc : x.server.pc = .synchronize g)
      (hsync : x.device.executed < x.server.issued.length)
  | release (hpc : x.server.pc = .recvRelease) (hworker : x.worker.pc = .exited .releaseError)
  | finish (hpc : x.server.pc = .recvFinish) (hworker : x.worker.pc = .exited .postHookError)

/-- In a final state none of a rank's agents moves. -/
theorem Final.agents {s : State} {q : Rank} (hfinal : u.Final s) (hq : q ∈ u.ranks) :
    u.serverStep q (s q) = none ∧ u.streamStep s q = none ∧ u.requestStep q (s q) = none ∧
      u.workerStep q (s q) = none := by
  have hstep : ∀ agent : Agent, agent.rank = q → u.agentStep s agent = none := by
    intro agent hrank
    have hnone : u.machine.step s agent = none := hfinal agent
    simpa [machine, hrank, hq] using hnone
  refine ⟨?_, ?_, ?_, ?_⟩
  · simpa [agentStep] using hstep (.server q) rfl
  · simpa [agentStep] using hstep (.stream q) rfl
  · simpa [agentStep] using hstep (.request q) rfl
  · simpa [agentStep] using hstep (.worker q) rfl

theorem ServerInv.lag {x : RankState} (hs : ServerInv u rank x.server x.device)
    (hsync : ¬ x.Synchronized) : x.device.executed < x.server.issued.length := by
  rw [hs.length_issued]
  refine Nat.lt_of_le_of_ne hs.executed fun heq => hsync ?_
  exact heq.trans hs.length_issued.symm

theorem final_halted {s : State} (h : u.Reachable s) (hfinal : u.Final s)
    (hcopies : u.CopiesSucceed) (hstart : u.WorkersStart) :
    ∀ q ∈ u.ranks, Halted u (s q) := by
  intro q hq
  have hinv := rankInv h q hq
  have hlocal := exit_not_local hcopies h q hq
  obtain ⟨hserver, _, hrequest, hworker⟩ := Final.agents hfinal hq
  cases serverStuck hserver with
  | unconnected _ habsent =>
      have hr := hinv.request
      rw [habsent] at hr
      cases requestStuck hrequest hinv.request with
      | ended hended =>
          rw [hended] at hr
          cases hr with
          | raised hreq => exact absurd hreq (hstart q hq)
          | ended _ hpc _ => exact absurd rfl hpc
      | waits hstarted _ _ =>
          rw [hstarted] at hr
          cases hr with
          | started _ hpc => exact absurd rfl hpc
  | reply hreceiving hreply =>
      rcases hinv.recv_stuck hreceiving hreply (workerStuck hworker) with
        ⟨hpc, hexited⟩ | ⟨hpc, hexited⟩
      · exact .release hpc hexited
      · exact .finish hpc hexited
  | collectives hpc hsync => exact .collectives hpc (hinv.server.lag hsync)
  | @request exit hpc hrunning =>
      exact (hinv.join_stuck hpc (fun g hg => hlocal g (by rw [hpc, hg]; rfl)) hrunning
        (requestStuck hrequest hinv.request) (workerStuck hworker)).elim
  | @barrier exit hpc hsync =>
      obtain rfl := hinv.server.stops hlocal exit (by rw [hpc]; rfl)
      exact .barrier hpc (hinv.server.lag hsync)
  | @left exit hpc =>
      obtain rfl := hinv.server.stops hlocal exit (by rw [hpc]; rfl)
      exact .left hpc

/-- When all ranks have come as far as a rank's stream, and issued what comes next,
the stream can move. -/
theorem streamStep_ne_none {s : State} {r : Rank} (hall : ∀ q ∈ u.ranks, RankInv u q (s q))
    (hr : r ∈ u.ranks)
    (hahead : ∀ q ∈ u.ranks, (s r).device.executed ≤ (s q).device.executed ∧
      (s r).device.executed < (s q).server.pc.issues u) : u.streamStep s r ≠ none := by
  intro hnone
  have hstarted : ∀ q ∈ u.ranks, Started s q (s r).device.executed
      (u.collective r (s r).device.executed).kind := by
    intro q hq
    obtain ⟨hle, hlt⟩ := hahead q hq
    refine ⟨hle, ?_⟩
    rw [(hall q hq).server.issued_get hlt, Option.map_some, collective_kind u q r]
  have hissued := (hall r hr).server.issued_get (hahead r hr).2
  have hbound := (hahead r hr).2.trans_le (hall r hr).server.valid.issues_le
  rcases Nat.mod_two_eq_zero_or_one (s r).device.executed with heven | hodd
  · obtain ⟨g, hg⟩ : ∃ g, (s r).device.executed = 2 * g :=
      ⟨(s r).device.executed / 2, by omega⟩
    have hsource := hstarted _ (turn_receiver_mem u (show g < u.rounds by omega))
    rw [hg, collective_even] at hissued hsource
    simp only [Collective.kind] at hsource
    simp only [streamStep, hg, hissued] at hnone
    split at hnone
    · contradiction
    · contradiction
  · obtain ⟨g, hg⟩ : ∃ g, (s r).device.executed = 2 * g + 1 :=
      ⟨(s r).device.executed / 2, by omega⟩
    rw [hg, collective_odd] at hissued hstarted
    simp only [Collective.kind] at hstarted
    simp only [streamStep, hg, hissued] at hnone
    rw [if_pos hstarted] at hnone
    contradiction

/-- A halted rank has issued whatever comes next for a rank that is not ahead of it
and still in a turn. -/
theorem Halted.issues_gt {x : RankState} {g k : Nat} (h : Halted u x)
    (hs : ServerInv u rank x.server x.device) (hg : g < u.rounds)
    (hclean : ∀ i < g, u.Clean i) (hk : k < 2 * g + 2) (hle : k ≤ x.device.executed) :
    k < x.server.pc.issues u := by
  cases h with
  | left hpc | barrier hpc _ =>
      rw [hpc]
      exact hk.trans_le (turn_le_outcome hg hclean)
  | collectives hpc hsync =>
      rw [hs.length_issued, hpc] at hsync
      rw [hpc]
      exact hle.trans_lt hsync
  | release hpc _ | finish hpc _ =>
      rw [hpc]
      simp only [Pc.issues]
      omega

/-- Among the ranks of an update, one is the slowest. -/
theorem exists_slowest {s : State} {q : Rank} (hq : q ∈ u.ranks) :
    ∃ r ∈ u.ranks, ∀ p ∈ u.ranks, (s r).device.executed ≤ (s p).device.executed := by
  cases hmin : List.argmin (fun p => (s p).device.executed) u.ranks with
  | none =>
      rw [List.argmin_eq_none] at hmin
      rw [hmin] at hq
      contradiction
  | some r =>
      exact ⟨r, List.argmin_mem hmin, fun p hp =>
        List.le_of_mem_argmin (f := fun p => (s p).device.executed) hp hmin⟩

/-- In a final state no rank waits within a turn. -/
theorem final_not_synchronize {s : State} (h : u.Reachable s) (hfinal : u.Final s)
    (hhalted : ∀ q ∈ u.ranks, Halted u (s q)) :
    ∀ q ∈ u.ranks, ∀ g, (s q).server.pc = .synchronize g →
      (s q).device.executed < (s q).server.issued.length → False := by
  intro q hq g hpc hsync
  have hall := rankInv h
  have hs := (hall q hq).server
  have hvalid := hs.valid
  have hclean := hs.clean
  rw [hs.length_issued, hpc] at hsync
  rw [hpc] at hvalid hclean
  obtain ⟨r, hr, hslowest⟩ := exists_slowest (s := s) hq
  refine streamStep_ne_none hall hr (fun p hp => ⟨hslowest p hp, ?_⟩) (Final.agents hfinal hr).2.1
  exact (hhalted p hp).issues_gt (hall p hp).server hvalid hclean
    ((hslowest q hq).trans_lt hsync) (hslowest p hp)

/-- Where every turn is clean, no worker fails after its last bucket. -/
def EndsQuietly (u : Update) : Prop :=
  (∀ g < u.rounds, u.Clean g) →
    ∀ rank ∈ u.ranks, u.env.releaseRaises rank = false ∧ u.env.postHookRaises rank = false

/-- Without a failing copy or end of a worker, every rank has come to the barrier. -/
theorem final_exits {s : State} (h : u.Reachable s) (hfinal : u.Final s)
    (hcopies : u.CopiesSucceed) (hstart : u.WorkersStart) (hquiet : u.EndsQuietly) :
    ∀ q ∈ u.ranks, (s q).server.pc = .left u.outcome ∨
      ((s q).server.pc = .awaitBarrier u.outcome ∧
        (s q).device.executed < (s q).server.issued.length) := by
  have hall := rankInv h
  have hhalted := final_halted h hfinal hcopies hstart
  intro q hq
  have hclean := (hall q hq).server.clean
  have hposition := (hall q hq).worker.position
  cases hhalted q hq with
  | left hpc => exact .inl hpc
  | barrier hpc hsync => exact .inr ⟨hpc, hsync⟩
  | collectives hpc hsync =>
      exact (final_not_synchronize h hfinal hhalted q hq _ hpc hsync).elim
  | release hpc hworker =>
      rw [hpc] at hclean
      rw [hworker] at hposition
      obtain ⟨_, _, hraises⟩ := hposition
      rw [(hquiet hclean q hq).1] at hraises
      contradiction
  | finish hpc hworker =>
      rw [hpc] at hclean
      rw [hworker] at hposition
      obtain ⟨_, _, hraises⟩ := hposition
      rw [(hquiet hclean q hq).2] at hraises
      contradiction

/-- A rank that has come to the barrier has executed everything before it. -/
theorem ServerInv.barrier_issued {x : RankState} {exit : Exit}
    (hs : ServerInv u rank x.server x.device)
    (hpc : x.server.pc = .left exit ∨ x.server.pc = .awaitBarrier exit) :
    exit.issues u ≤ x.device.executed ∧ x.server.issued[exit.issues u]? = some .barrier := by
  have hsettled := hs.settled
  rw [hs.history]
  rcases hpc with hpc | hpc
  · rw [hpc] at hsettled ⊢
    exact ⟨(Nat.le_succ _).trans hsettled,
      by simp [serverAt, issuedAt, Pc.issues, Pc.barriers]⟩
  · rw [hpc] at hsettled ⊢
    exact ⟨hsettled, by simp [serverAt, issuedAt, Pc.issues, Pc.barriers]⟩

/-- Where neither a copy nor the end of a worker fails, every rank gets to the end of
the update. -/
theorem final_left {s : State} (h : u.Reachable s) (hfinal : u.Final s)
    (hcopies : u.CopiesSucceed) (hstart : u.WorkersStart) (hquiet : u.EndsQuietly) :
    ∀ q ∈ u.ranks, (s q).server.pc = .left u.outcome := by
  have hall := rankInv h
  have hexits := final_exits h hfinal hcopies hstart hquiet
  intro q hq
  rcases hexits q hq with hleft | ⟨hpc, hsync⟩
  · exact hleft
  · -- everyone has issued the barrier, so the rank's stream can execute it
    exfalso
    have hissued : ∀ p ∈ u.ranks, u.outcome.issues u ≤ (s p).device.executed ∧
        (s p).server.issued[u.outcome.issues u]? = some .barrier := by
      intro p hp
      exact (hall p hp).server.barrier_issued ((hexits p hp).imp_right And.left)
    have hk : (s q).device.executed = u.outcome.issues u := by
      have hsettled := (hissued q hq).1
      rw [(hall q hq).server.length_issued, hpc] at hsync
      simp only [Pc.issues, Pc.barriers, List.length_singleton] at hsync
      omega
    have hnone := (Final.agents hfinal hq).2.1
    simp only [streamStep, hk, (hissued q hq).2] at hnone
    rw [if_pos] at hnone
    · contradiction
    · intro p hp
      exact ⟨(hissued p hp).1, by rw [(hissued p hp).2]; rfl⟩

end CheckpointEngine.Update
