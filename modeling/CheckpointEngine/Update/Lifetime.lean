/-
  `Update.Lifetime`: how long the shared buffer lives.

  The first `None` tells the worker to let go of the buffer and the second one that the
  server has let go of it too.  So a worker never reads a buffer that is gone, and its
  `post_hook` runs when the memory is free.
-/
import CheckpointEngine.Update.LocalFailure

set_option autoImplicit false

namespace CheckpointEngine.Update

open CheckpointEngine.Foundation

variable {u : Update} {rank : Rank}

/-- The server has come to `del buffer_b, h2d_buffer, buffer, handle`. -/
def Pc.Released : Pc → Prop
  | .sendFinish | .recvFinish => True
  | pc => pc.exit? = some .returned

/-- The worker holds nothing of the buffer and will not. -/
def WorkerPc.LetGo : WorkerPc → Prop
  | .recvPayload true | .finish | .exited _ => True
  | _ => False

/-- The worker is in `post_hook`, or through with it. -/
def WorkerPc.Finishing : WorkerPc → Prop
  | .finish | .exited .returned | .exited .postHookError => True
  | _ => False

/-- The worker opens the buffer or reads it. -/
def WorkerPc.Reads : WorkerPc → Prop
  | .attach | .run _ => True
  | _ => False

theorem Pc.Released.receives {pc : Pc} (h : pc.Released) : u.rounds + 2 ≤ pc.receives u := by
  cases pc with
  | sendFinish | recvFinish => exact Nat.le_refl _
  | join exit | barrier exit | awaitBarrier exit | left exit =>
      obtain rfl : exit = .returned := Option.some.inj h
      exact Nat.le_succ _
  | _ => cases h

/-- A server that sends so much has released the buffer. -/
theorem Pc.released_of_sends {pc : Pc} (hvalid : pc.Valid u) (h : u.rounds + 3 ≤ pc.sends u) :
    pc.Released := by
  have hlater : ∀ g, g < u.rounds → ¬ u.rounds + 3 ≤ g + 1 := fun g hg hle => by omega
  cases pc with
  | sendFinish | recvFinish => trivial
  | join exit | barrier exit | awaitBarrier exit | left exit =>
      cases exit with
      | returned => rfl
      | remoteError g => exact absurd h (hlater g hvalid.1)
      | localError g => exact absurd h (hlater g hvalid)
  | stage g | fill g | broadcast g | recvReply g | allReduce g | synchronize g =>
      exact absurd h (hlater g hvalid)
  | sendHandle => exact absurd h (Nat.not_succ_le_zero _)
  | recvLast | sendRelease | recvRelease =>
      simp only [Pc.sends] at h
      omega

/-- After two replies more than there are turns, the worker has let go of the buffer. -/
theorem RankInv.letGo {x : RankState} (h : RankInv u rank x) (hreleased : x.server.pc.Released) :
    x.worker.pc.LetGo := by
  have hreplies : u.rounds + 2 ≤ x.worker.replied.length := by
    have hreceived := h.server.received_eq
    have hcount := @Pc.Released.receives u _ hreleased
    have hread := h.worker.received
    omega
  have hposition := h.worker.position
  cases hpc : x.worker.pc with
  | finish | exited exit => trivial
  | recvPayload released =>
      rw [hpc] at hposition
      cases released with
      | true => trivial
      | false =>
          have hfew := hposition.2.2.1
          omega
  | absent | recvHandle | attach | release =>
      rw [hpc] at hposition
      have hfew := hposition.2
      omega
  | recvAck | run payload =>
      rw [hpc] at hposition
      obtain ⟨hfirst, hsecond, hrest⟩ := hposition
      omega

/-- The `post_hook` is called for the second `None`, which is sent when all is released. -/
theorem RankInv.released_of_finishing {x : RankState} (h : RankInv u rank x)
    (hfinishing : x.worker.pc.Finishing) : x.server.pc.Released := by
  have hposition := h.worker.position
  have htold := h.worker.told
  refine Pc.released_of_sends h.server.valid ?_
  cases hpc : x.worker.pc with
  | finish =>
      rw [hpc] at hposition htold
      exact hposition.1 ▸ htold
  | exited exit =>
      rw [hpc] at hposition htold hfinishing
      cases exit with
      | returned | postHookError => exact hposition.1 ▸ htold
      | _ => exact hfinishing.elim
  | _ =>
      rw [hpc] at hfinishing
      exact hfinishing.elim

/-- In the `finally` block the replies to all that has been sent are read, but the exception
apart and after a failure of the server itself. -/
theorem RankInv.not_reads {x : RankState} {exit : Exit} (h : RankInv u rank x)
    (hexit : x.server.pc.exit? = some exit) (hlocal : ∀ g, exit ≠ .localError g) :
    ¬ x.worker.pc.Reads := by
  have hsends := @Pc.sends_of_exit u _ _ hexit
  have hreceives := @Pc.receives_of_exit u _ _ hexit
  have hreceived := h.server.received_eq
  have hread := h.worker.received
  have hposition := h.worker.position
  have htold := h.worker.told
  have hall : exit.sends u ≤ exit.receives u := by
    cases exit with
    | localError g => exact absurd rfl (hlocal g)
    | returned | remoteError g => exact Nat.le_refl _
  have hpos : 0 < exit.sends u := by
    cases exit with
    | _ => exact Nat.succ_pos _
  intro hreads
  cases hpc : x.worker.pc with
  | attach =>
      rw [hpc] at hposition
      have hnone := hposition.2
      omega
  | run payload =>
      rw [hpc] at hposition htold
      have htaken := hposition.1
      have htold : x.worker.taken ≤ x.server.pc.sends u := htold
      omega
  | _ =>
      rw [hpc] at hreads
      exact hreads.elim

/-- The server is past `req_thread.join()`. -/
def Pc.Joined : Pc → Prop
  | .barrier _ | .awaitBarrier _ | .left _ => True
  | _ => False

theorem enter_not_joined (u : Update) (g : Nat) : ¬ (u.enter g).Joined := by
  rw [enter]
  split
  · exact id
  · exact id

theorem joined {s : State} (h : u.Reachable s) : ∀ q ∈ u.ranks,
    (s q).server.pc.Joined → ∃ raised, (s q).request = .ended raised := by
  refine rank_invariant (P := fun _ x => x.server.pc.Joined → ∃ raised, x.request = .ended raised)
    (fun _ _ => False.elim) ?_ h
  intro s rank x _ hrank hall hmove hpc
  have hbefore := hall rank hrank
  cases hmove with
  | stream _ | worker _ => exact hbefore hpc
  | request hmove =>
      obtain ⟨raised, hended⟩ := hbefore hpc
      cases hmove with
      | raisesFirst hrequest _ | starts hrequest _ | ends hrequest _ _ =>
          rw [hended] at hrequest
          cases hrequest
  | server hmove =>
      cases hmove with
      | join hpc' hrequest => exact ⟨_, hrequest⟩
      | barrier hpc' | leave hpc' _ =>
          refine hbefore ?_
          rw [hpc']
          trivial
      | sendHandle _ _ | metadata _ _ _ => exact absurd hpc (enter_not_joined _ _)
      | _ => exact hpc.elim

/-- A server that has left is through. -/
theorem left_stable {s t : State} {exit : Exit} (hs : u.Reachable s)
    (hst : u.machine.Steps s t) (hpc : (s rank).server.pc = .left exit) :
    (t rank).server.pc = .left exit := by
  refine Machine.Steps.invariant (I := fun s => (s rank).server.pc = .left exit) ?_ hs hpc hst
  intro s agent t _ hpc hstep
  obtain ⟨_, x, hmove, rfl⟩ := step_move hstep
  by_cases hown : rank = agent.rank
  · subst hown
    rw [setRank_self]
    cases hmove with
    | server hmove =>
        cases hmove with
        | join hpc' _ | barrier hpc' | leave hpc' _ | recvReply hpc' _ | recvLast hpc' _
        | recvRelease hpc' _ | recvFinish hpc' _ | sendHandle hpc' _ | stage hpc' _ _
        | skipStage hpc' _ | stageError hpc' _ _ | fill hpc' _ | fillError hpc' _ | broadcast hpc'
        | allReduce hpc' | metadata hpc' _ _ | exception hpc' _ _ | sendRelease hpc'
        | sendFinish hpc' =>
            rw [hpc] at hpc'
            cases hpc'
    | stream _ | request _ | worker _ => exact hpc
  · rw [setRank_other hown]
    exact hpc

/-- A server that leaves when `req_func` has waited leaves an ended worker. -/
theorem RankInv.ended_of_waits {x : RankState} {raised raisesLater : Bool} (h : RankInv u rank x)
    (hrequest : x.request = .ended raised) (hreq : u.env.reqFunc rank = .starts true raisesLater) :
    ∃ exit, x.worker.pc = .exited exit := by
  have hinv := h.request
  rw [hrequest] at hinv
  revert hinv
  generalize x.worker.pc = pc
  intro hinv
  cases hinv with
  | raised hfirst =>
      rw [hreq] at hfirst
      cases hfirst
  | ended hstarts _ hwaits =>
      rw [hreq] at hstarts
      cases hstarts
      exact hwaits rfl

/-- **The buffer outlives its readers.**  In every interleaving, whatever raises on whichever
rank: a server that has released the buffer has a worker that has let go of it, and a worker
is in its `post_hook` only when the server has released it.  A server that is in the `finally`
block, but for a failure of its own, has a worker that will not open the buffer or read it any
more; after such a failure too, if its `req_func` waits for the worker. -/
theorem buffer_outlives_readers (u : Update) {s : State} (h : u.Reachable s) {q : Rank}
    (hq : q ∈ u.ranks) :
    ((s q).server.pc.Released → (s q).worker.pc.LetGo) ∧
      ((s q).worker.pc.Finishing → (s q).server.pc.Released) ∧
      (∀ exit, (s q).server.pc.exit? = some exit → (∀ g, exit ≠ .localError g) →
        ∀ t, u.machine.Steps s t → ¬ (t q).worker.pc.Reads) ∧
      ∀ exit raises, (s q).server.pc = .left exit → u.env.reqFunc q = .starts true raises →
        ∀ t, u.machine.Steps s t → ¬ (t q).worker.pc.Reads := by
  have hinv := rankInv h q hq
  refine ⟨hinv.letGo, hinv.released_of_finishing, ?_, ?_⟩
  · intro exit hexit hlocal t hsteps
    exact (rankInv (h.steps hsteps) q hq).not_reads (exit_stable h hsteps hexit) hlocal
  · intro exit raises hleft hwaits t hsteps hreads
    have hleft' := left_stable h hsteps hleft
    obtain ⟨raised, hended⟩ := joined (h.steps hsteps) q hq (by rw [hleft']; trivial)
    obtain ⟨_, hexited⟩ := (rankInv (h.steps hsteps) q hq).ended_of_waits hended hwaits
    rw [hexited] at hreads
    exact hreads

/-- A run of a single rank up to the point where it has released its buffer. -/
def untilReleased : List Agent :=
  [.request 0, .server 0, .worker 0, .worker 0, .server 0, .server 0, .server 0, .stream 0,
    .server 0, .server 0, .stream 0, .server 0, .worker 0, .worker 0, .server 0, .server 0,
    .worker 0, .worker 0, .server 0]

theorem buffer_outlives_readers_singleBucket :
    ∃ s, (singleBucket [] .faultless).Reachable s ∧ (s 0).server.pc.Released ∧
      (s 0).worker.pc.LetGo := by
  obtain ⟨s, hs, hpc⟩ := Machine.Reachable.of_run (M := (singleBucket [] .faultless).machine)
    (P := fun s => (s 0).server.pc = .sendFinish) untilReleased (by decide)
  have hreleased : (s 0).server.pc.Released := by
    rw [hpc]
    trivial
  exact ⟨s, hs, hreleased, (buffer_outlives_readers _ hs (by decide)).1 hreleased⟩

end CheckpointEngine.Update
