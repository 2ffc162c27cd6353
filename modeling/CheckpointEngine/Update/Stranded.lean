/-
  `Update.Stranded`: a parameter server and the worker that does not answer any more.

  Replies are guarded while the worker attaches and runs.  What raises behind the
  loop, in the release or in `post_hook`, ends the worker without a reply, and an
  exception of `req_func` stays in its thread.
-/
import CheckpointEngine.Update.Agreement

set_option autoImplicit false

namespace CheckpointEngine.Update

open CheckpointEngine.Foundation

variable {u : Update} {rank : Rank}

/-- The worker has ended, or `req_func` has ended without starting it. -/
def WorkerGone (x : RankState) : Prop :=
  (∃ exit, x.worker.pc = .exited exit) ∨
    (x.worker.pc = .absent ∧ ∃ raised, x.request = .ended raised)

/-- The server of `r` never waits for a reply nobody will send, and what raises in
`req_func` or `post_hook` makes the update raise. -/
structure NeverWaitsForNobody (u : Update) (r : Rank) : Prop where
  recv : ∀ s, u.Reachable s → (s r).server.pc.Receiving → (s r).nextReply = none →
    ¬ WorkerGone (s r)
  raises : ∀ s, u.Reachable s → u.Final s →
    ((s r).request = .ended true ∨ (s r).worker.pc = .exited .postHookError) →
    ∃ exit, exit ≠ .returned ∧ (s r).server.pc = .left exit

/-- Nothing but attach and run fails on the other ranks. -/
def PeersServe (u : Update) (r : Rank) : Prop :=
  ∀ q ∈ u.ranks, q ≠ r → u.env.reqFunc q ≠ .raisesFirst ∧ u.env.releaseRaises q = false ∧
    u.env.postHookRaises q = false

/-- What a request thread has raised, its `req_func` raises. -/
theorem RequestInv.ended_true {pc : WorkerPc} (h : RequestInv u rank (.ended true) pc) :
    u.env.reqFunc rank = .raisesFirst ∨ ∃ waits, u.env.reqFunc rank = .starts waits true := by
  cases h with
  | raised hreq => exact .inl hreq
  | ended hreq _ _ => exact .inr ⟨_, hreq⟩

/-- A server that has come through all its calls has a worker that has, too. -/
theorem RankInv.returned_worker {x : RankState} (hinv : RankInv u rank x)
    (hpc : x.server.pc.exit? = some .returned) : x.worker.pc = .exited .returned := by
  have hreceives : x.server.received = u.rounds + 3 := by
    rw [hinv.server.received_eq, Pc.receives_of_exit hpc]
    rfl
  have hcount := hreceives ▸ hinv.worker.received
  have hposition := hinv.worker.position
  have htold := hinv.worker.told
  obtain ⟨_, hfarewell, _⟩ := Pc.sends_of_exit (u := u) hpc
  revert hposition htold
  cases x.worker.pc with
  | exited exit =>
      intro hposition htold
      cases exit with
      | returned => rfl
      | attachError | forced =>
          have hexception := htold.2
          rw [hfarewell] at hexception
          cases hexception
      | unexpectedPayload => exact hposition.elim
      | releaseError | postHookError =>
          have := hposition.2.1
          omega
  | recvPayload released =>
      intro hposition _
      cases released with
      | false =>
          have := hposition.2.2.1
          omega
      | true =>
          have := hposition.2.1
          omega
  | absent | recvHandle | attach | release =>
      intro hposition _
      have := hposition.2
      omega
  | recvAck | finish =>
      intro hposition _
      have := hposition.2.1
      omega
  | run payload =>
      intro hposition _
      have := hposition.2.2.1
      omega

/-- A server that has run into a missing reply: everything was fine up to the end of
the loop, and what came after it raised. -/
theorem RankInv.recv_abandoned {x : RankState} (hinv : RankInv u rank x)
    (hreceiving : x.server.pc.Receiving) (hreply : x.nextReply = none) (hgone : WorkerGone x) :
    (∀ g < u.rounds, u.Clean g) ∧
      (u.env.releaseRaises rank = true ∨ u.env.postHookRaises rank = true) := by
  obtain ⟨_, _, hhandle⟩ := hreceiving.sends (u := u)
  have hclean := hinv.server.clean
  have hposition := hinv.worker.position
  rcases hgone with ⟨exit, hexited⟩ | ⟨habsent, _⟩
  · rcases hinv.recv_stuck hreceiving hreply (.exited hexited) with ⟨hpc, hworker⟩ | ⟨hpc, hworker⟩
    · rw [hpc] at hclean
      rw [hworker] at hposition
      exact ⟨hclean, .inl hposition.2.2⟩
    · rw [hpc] at hclean
      rw [hworker] at hposition
      exact ⟨hclean, .inr hposition.2.2⟩
  · exact absurd habsent (hinv.worker.present hhandle)

/-- When the turns are clean and the worker fails behind the loop, the server ends
waiting for a reply. -/
theorem final_abandoned {s : State} {r : Rank} (hs : u.Reachable s) (hfinal : u.Final s)
    (hcopies : u.CopiesSucceed) (hstart : u.WorkersStart) (hr : r ∈ u.ranks)
    (hclean : ∀ g < u.rounds, u.Clean g)
    (hraises : u.env.releaseRaises r = true ∨ u.env.postHookRaises r = true) :
    (s r).server.pc.Receiving ∧ (s r).nextReply = none ∧ WorkerGone (s r) := by
  have hall := rankInv hs
  have hinv := hall r hr
  have hhalted := final_halted hs hfinal hcopies hstart
  have houtcome := outcome_returned_iff.mpr hclean
  have hreceived := hinv.server.received_eq
  have hposition := hinv.worker.position
  -- a server behind its last `recv` has had all replies
  have hexit : (s r).server.pc.exit? = some .returned → False := by
    intro hpc
    rw [hinv.returned_worker hpc] at hposition
    obtain ⟨_, _, hrelease, hpost⟩ := hposition
    rcases hraises with h | h
    · rw [hrelease] at h
      contradiction
    · rw [hpost] at h
      contradiction
  cases hhalted r hr with
  | left hpc => exact (hexit (by rw [hpc, houtcome]; rfl)).elim
  | barrier hpc _ => exact (hexit (by rw [hpc, houtcome]; rfl)).elim
  | collectives hpc hsync =>
      exact (final_not_synchronize hs hfinal hhalted r hr _ hpc hsync).elim
  | release hpc hworker =>
      rw [hworker] at hposition
      refine ⟨by rw [hpc]; trivial, ?_, .inl ⟨_, hworker⟩⟩
      apply List.getElem?_eq_none
      rw [hreceived, hpc, hposition.2.1]
      exact Nat.le_refl _
  | finish hpc hworker =>
      rw [hworker] at hposition
      refine ⟨by rw [hpc]; trivial, ?_, .inl ⟨_, hworker⟩⟩
      apply List.getElem?_eq_none
      rw [hreceived, hpc, hposition.2.1]
      exact Nat.le_refl _

/-- A `req_func` that raises before it has reached the worker leaves the server in the
send of the handle. -/
theorem final_unconnected {s : State} {r : Rank} (hs : u.Reachable s) (hfinal : u.Final s)
    (hr : r ∈ u.ranks) (hreq : u.env.reqFunc r = .raisesFirst) :
    (s r).request = .ended true ∧ (s r).server.pc = .sendHandle := by
  have hinv := rankInv hs r hr
  have hrequest := hinv.request
  have habsent : (s r).request = .ended true ∧ (s r).worker.pc = .absent := by
    cases requestStuck (Final.agents hfinal hr).2.2.1 hinv.request with
    | waits _ hreq' _ =>
        rw [hreq] at hreq'
        cases hreq'
    | ended hended =>
        rw [hended] at hrequest ⊢
        generalize (s r).worker.pc = pc at hrequest ⊢
        cases hrequest with
        | raised _ => exact ⟨rfl, rfl⟩
        | ended hreq' _ _ =>
            rw [hreq] at hreq'
            cases hreq'
  refine ⟨habsent.1, ?_⟩
  by_contra hpc
  exact hinv.worker.present hpc habsent.2

/-- A `req_func` that raises later on has raised when the update returns. -/
theorem final_late_request {s : State} {r : Rank} (hs : u.Reachable s) (hfinal : u.Final s)
    (hr : r ∈ u.ranks) (hpc : (s r).server.pc = .left .returned) {waits : Bool}
    (hreq : u.env.reqFunc r = .starts waits true) : (s r).request = .ended true := by
  have hinv := rankInv hs r hr
  have hworker := hinv.returned_worker (by rw [hpc]; rfl)
  have hrequest := hinv.request
  cases requestStuck (Final.agents hfinal hr).2.2.1 hinv.request with
  | waits _ _ hrunning => exact absurd hworker (hrunning _)
  | ended hended =>
      rw [hended] at hrequest ⊢
      rw [hworker] at hrequest
      cases hrequest with
      | ended hreq' _ _ =>
          rw [hreq] at hreq'
          cases hreq'
          rfl

/-! ## When the server never waits for nobody -/

theorem PeersServe.workersStart {r : Rank} (h : u.PeersServe r)
    (hfirst : u.env.reqFunc r ≠ .raisesFirst) : u.WorkersStart := by
  intro q hq
  by_cases hqr : q = r
  · exact hqr ▸ hfirst
  · exact (h q hq hqr).1

theorem PeersServe.endsQuietly {r : Rank} (h : u.PeersServe r)
    (hend : (∀ g < u.rounds, u.Clean g) →
      u.env.releaseRaises r = false ∧ u.env.postHookRaises r = false) : u.EndsQuietly := by
  intro hclean q hq
  by_cases hqr : q = r
  · exact hqr ▸ hend hclean
  · exact (h q hq hqr).2

theorem NeverWaitsForNobody.reaches_worker {r : Rank} (h : u.NeverWaitsForNobody r)
    (hr : r ∈ u.ranks) : u.env.reqFunc r ≠ .raisesFirst := by
  intro hreq
  obtain ⟨s, hs, hfinal⟩ := (machine_descends u).exists_final Machine.Reachable.init
  obtain ⟨hended, hpc⟩ := final_unconnected hs hfinal hr hreq
  obtain ⟨exit, _, hleft⟩ := h.raises s hs hfinal (.inl hended)
  rw [hpc] at hleft
  cases hleft

theorem NeverWaitsForNobody.worker_ends {r : Rank} (h : u.NeverWaitsForNobody r)
    (hr : r ∈ u.ranks) (hcopies : u.CopiesSucceed) (hstart : u.WorkersStart)
    (hclean : ∀ g < u.rounds, u.Clean g) :
    u.env.releaseRaises r = false ∧ u.env.postHookRaises r = false := by
  by_contra hraises
  have hsome : u.env.releaseRaises r = true ∨ u.env.postHookRaises r = true := by
    revert hraises
    cases u.env.releaseRaises r <;> cases u.env.postHookRaises r <;> simp
  obtain ⟨s, hs, hfinal⟩ := (machine_descends u).exists_final Machine.Reachable.init
  obtain ⟨hreceiving, hreply, hgone⟩ := final_abandoned hs hfinal hcopies hstart hr hclean hsome
  exact h.recv s hs hreceiving hreply hgone

theorem NeverWaitsForNobody.request_quiet {r : Rank} (h : u.NeverWaitsForNobody r)
    (hr : r ∈ u.ranks) (hcopies : u.CopiesSucceed) (hstart : u.WorkersStart)
    (hquiet : u.EndsQuietly) (hclean : ∀ g < u.rounds, u.Clean g) (waits : Bool) :
    u.env.reqFunc r ≠ .starts waits true := by
  intro hreq
  obtain ⟨s, hs, hfinal⟩ := (machine_descends u).exists_final Machine.Reachable.init
  have hpc := final_left hs hfinal hcopies hstart hquiet r hr
  rw [outcome_returned_iff.mpr hclean] at hpc
  have hended := final_late_request hs hfinal hr hpc hreq
  obtain ⟨exit, hne, hleft⟩ := h.raises s hs hfinal (.inl hended)
  rw [hpc] at hleft
  cases hleft
  exact hne rfl

/-- A parameter server never waits for nobody exactly if `req_func` reaches the worker
and, unless an error leaves the loop early, nothing raises behind it: neither the release
nor `post_hook` nor, later on, `req_func`. -/
theorem neverWaitsForNobody_iff (u : Update) {r : Rank} (hr : r ∈ u.ranks)
    (hcopies : u.CopiesSucceed) (hpeers : u.PeersServe r) :
    u.NeverWaitsForNobody r ↔
      u.env.reqFunc r ≠ .raisesFirst ∧
        ((∀ g < u.rounds, u.Clean g) →
          u.env.releaseRaises r = false ∧ u.env.postHookRaises r = false ∧
            ∀ waits, u.env.reqFunc r ≠ .starts waits true) := by
  constructor
  · intro hnever
    have hfirst := hnever.reaches_worker hr
    have hstart := hpeers.workersStart hfirst
    refine ⟨hfirst, fun hclean => ?_⟩
    have hend := hnever.worker_ends hr hcopies hstart
    have hquiet := hpeers.endsQuietly hend
    exact ⟨(hend hclean).1, (hend hclean).2,
      hnever.request_quiet hr hcopies hstart hquiet hclean⟩
  · rintro ⟨hfirst, hend⟩
    have hstart := hpeers.workersStart hfirst
    have hquiet := hpeers.endsQuietly fun hclean => ⟨(hend hclean).1, (hend hclean).2.1⟩
    constructor
    · intro s hs hreceiving hreply hgone
      obtain ⟨hclean, hraises⟩ := (rankInv hs r hr).recv_abandoned hreceiving hreply hgone
      obtain ⟨hrelease, hpost, _⟩ := hend hclean
      rcases hraises with h | h
      · rw [hrelease] at h
        contradiction
      · rw [hpost] at h
        contradiction
    · intro s hs hfinal hraised
      have hpc := final_left hs hfinal hcopies hstart hquiet r hr
      refine ⟨u.outcome, fun houtcome => ?_, hpc⟩
      obtain ⟨_, hpost, hlater⟩ := hend (outcome_returned_iff.mp houtcome)
      have hinv := rankInv hs r hr
      rcases hraised with hended | hhook
      · have hrequest := hinv.request
        rw [hended] at hrequest
        rcases hrequest.ended_true with hreq | ⟨waits, hreq⟩
        · exact hfirst hreq
        · exact hlater waits hreq
      · have hposition := hinv.worker.position
        rw [hhook] at hposition
        obtain ⟨_, _, hraises⟩ := hposition
        rw [hpost] at hraises
        contradiction

/-- One rank, and its `post_hook` raises. -/
def postHookFails : Update :=
  singleBucket [] { Environment.faultless with postHookRaises := fun _ => true }

theorem neverWaitsForNobody_iff_postHookFails :
    postHookFails.NeverWaitsForNobody 0 ↔
      postHookFails.env.reqFunc 0 ≠ .raisesFirst ∧
        ((∀ g < postHookFails.rounds, postHookFails.Clean g) →
          postHookFails.env.releaseRaises 0 = false ∧
            postHookFails.env.postHookRaises 0 = false ∧
            ∀ waits, postHookFails.env.reqFunc 0 ≠ .starts waits true) :=
  neverWaitsForNobody_iff postHookFails (by decide) (fun _ _ _ h => nomatch h)
    fun q hq hne => absurd (List.mem_singleton.mp hq) hne

/-- A run up to the second `None`, whose receipt calls `post_hook`. -/
def untilPostHook : List Agent :=
  untilMetadata ++ [.worker 0, .worker 0, .server 0, .server 0, .worker 0, .worker 0, .server 0,
    .server 0, .worker 0, .worker 0]

/-- The server waits for the reply of a worker that its `post_hook` has ended. -/
theorem postHookFails_waits : ¬ postHookFails.NeverWaitsForNobody 0 := by
  intro hnever
  obtain ⟨s, hs, hpc, hreply, hworker⟩ := Machine.Reachable.of_run
    (M := postHookFails.machine)
    (P := fun s => (s 0).server.pc = .recvFinish ∧ (s 0).nextReply = none ∧
      (s 0).worker.pc = .exited .postHookError) untilPostHook (by decide)
  exact hnever.recv s hs (by rw [hpc]; trivial) hreply (.inl ⟨_, hworker⟩)

end CheckpointEngine.Update
