/-
  `Update.Invariant`: what holds of every rank in every reachable state.

  The server's record is the one its control point determines, the control point
  is one the failures allow, and the worker is where its counts of messages and
  replies put it.  Nothing is assumed about the environment.
-/
import CheckpointEngine.Update.History
import CheckpointEngine.Update.Moves

set_option autoImplicit false

namespace CheckpointEngine.Update

open CheckpointEngine.Foundation

variable {u : Update} {rank : Rank}

/-! ## The server -/

/-- The record of a server that is at `pc`. -/
def serverAt (u : Update) (rank : Rank) (pc : Pc) : Server :=
  ⟨pc, u.issuedAt rank pc, u.sentAt pc, pc.receives u, u.socketAt pc⟩

/-- The exit is one the failures allow. -/
def Exit.Valid (u : Update) : Exit → Prop
  | .returned => True
  | .remoteError g => g < u.rounds ∧ ¬ u.Clean g
  | .localError g => g < u.rounds

/-- The control point is one the failures allow. -/
def Pc.Valid (u : Update) : Pc → Prop
  | .stage g | .fill g | .broadcast g | .recvReply g | .allReduce g | .synchronize g =>
      g < u.rounds
  | .join exit | .barrier exit | .awaitBarrier exit | .left exit => exit.Valid u
  | _ => True

/-- What `ret_code` holds at a control point, as long as it matters. -/
def CodeAt (u : Update) (rank : Rank) (d : Device) : Pc → Prop
  | .allReduce g => d.retCode = u.code rank g
  | .synchronize g =>
      d.retCode = if d.executed = 2 * g + 2 then u.total g else u.code rank g
  | .join _ | .barrier _ | .awaitBarrier _ | .left _ => True
  | _ => d.retCode = 0

/-- The invariant of the server and its device. -/
structure ServerInv (u : Update) (rank : Rank) (s : Server) (d : Device) : Prop where
  history : s = u.serverAt rank s.pc
  valid : s.pc.Valid u
  clean : ∀ g < s.pc.cleared u, u.Clean g
  settled : s.pc.settled u ≤ d.executed
  executed : d.executed ≤ s.pc.issues u + s.pc.barriers.length
  retCode : CodeAt u rank d s.pc

/-! ## The worker -/

/-- How many messages a worker has taken and how many replies it has sent. -/
def WorkerAt (u : Update) (rank : Rank) (taken replies : Nat) : WorkerPc → Prop
  | .absent | .recvHandle => taken = 0 ∧ replies = 0
  | .attach => taken = 1 ∧ replies = 0
  | .recvAck => taken = 1 ∧ replies = 1 ∧ u.env.attachRaises rank = true
  | .recvPayload false =>
      taken = replies ∧ 1 ≤ replies ∧ replies ≤ u.rounds + 1 ∧
        u.env.attachRaises rank = false
  | .run payload =>
      taken = replies + 1 ∧ 1 ≤ replies ∧ replies ≤ u.rounds ∧
        payload = u.metadata (replies - 1) ∧ u.env.attachRaises rank = false
  | .release => taken = u.rounds + 2 ∧ replies = u.rounds + 1
  | .recvPayload true =>
      taken = u.rounds + 2 ∧ replies = u.rounds + 2 ∧ u.env.releaseRaises rank = false
  | .finish =>
      taken = u.rounds + 3 ∧ replies = u.rounds + 2 ∧ u.env.releaseRaises rank = false
  | .exited .attachError => taken = 2 ∧ replies = 1
  | .exited .forced => taken = replies + 1 ∧ 1 ≤ replies
  | .exited .releaseError =>
      taken = u.rounds + 2 ∧ replies = u.rounds + 1 ∧ u.env.releaseRaises rank = true
  | .exited .postHookError =>
      taken = u.rounds + 3 ∧ replies = u.rounds + 2 ∧ u.env.postHookRaises rank = true
  | .exited .returned =>
      taken = u.rounds + 3 ∧ replies = u.rounds + 3 ∧
        u.env.releaseRaises rank = false ∧ u.env.postHookRaises rank = false
  | .exited .unexpectedPayload => False

/-- How many messages a worker can have taken: only a worker that has taken the
exception is out of the protocol before its end. -/
def Told (u : Update) (pc : Pc) (taken : Nat) : WorkerPc → Prop
  | .exited .attachError | .exited .forced =>
      taken = pc.sends u + 1 ∧ pc.farewell = [.exception]
  | _ => taken ≤ pc.sends u

/-- The invariant of the worker and its socket. -/
structure WorkerInv (u : Update) (rank : Rank) (s : Server) (w : Worker) : Prop where
  position : WorkerAt u rank w.taken w.replied.length w.pc
  told : Told u s.pc w.taken w.pc
  replied : w.replied = (List.range w.replied.length).map (u.reply rank)
  handed : w.handed.length = min (w.replied.length - 1) u.rounds
  received : s.received ≤ w.replied.length
  present : s.pc ≠ .sendHandle → w.pc ≠ .absent

/-- The invariant of the request thread. -/
inductive RequestInv (u : Update) (rank : Rank) : RequestPc → WorkerPc → Prop where
  | called : RequestInv u rank .called .absent
  | raised (hreq : u.env.reqFunc rank = .raisesFirst) :
      RequestInv u rank (.ended true) .absent
  | started {waits raisesLater : Bool} {pc : WorkerPc}
      (hreq : u.env.reqFunc rank = .starts waits raisesLater) (hpc : pc ≠ .absent) :
      RequestInv u rank .started pc
  | ended {waits raisesLater : Bool} {pc : WorkerPc}
      (hreq : u.env.reqFunc rank = .starts waits raisesLater) (hpc : pc ≠ .absent)
      (hwaits : waits = true → ∃ exit, pc = .exited exit) :
      RequestInv u rank (.ended raisesLater) pc

/-- The invariant of a rank. -/
structure RankInv (u : Update) (rank : Rank) (x : RankState) : Prop where
  server : ServerInv u rank x.server x.device
  worker : WorkerInv u rank x.server x.worker
  request : RequestInv u rank x.request x.worker.pc

/-- What a server in the `finally` block has sent is determined by how it got there. -/
theorem Pc.sends_of_exit {pc : Pc} {exit : Exit} (h : pc.exit? = some exit) :
    pc.sends u = exit.sends u ∧ pc.farewell = exit.farewell ∧
      (pc.Valid u → exit.Valid u) := by
  cases pc with
  | join _ | barrier _ | awaitBarrier _ | left _ =>
      cases h
      exact ⟨rfl, rfl, id⟩
  | _ => cases h

theorem Pc.receives_of_exit {pc : Pc} {exit : Exit} (h : pc.exit? = some exit) :
    pc.receives u = exit.receives u := by
  cases pc with
  | join _ | barrier _ | awaitBarrier _ | left _ =>
      cases h
      rfl
  | _ => cases h

theorem ServerInv.received_eq {s : Server} {d : Device} (hs : ServerInv u rank s d) :
    s.received = s.pc.receives u :=
  congrArg Server.received hs.history

theorem ServerInv.length_issued {s : Server} {d : Device} (hs : ServerInv u rank s d) :
    s.issued.length = s.pc.issues u + s.pc.barriers.length := by
  conv_lhs => rw [hs.history]
  exact length_issuedAt u rank s.pc

/-! ## The record of a server from step to step -/

/-- A step that calls nothing. -/
theorem serverAt_goto {pc pc' : Pc} (hsends : pc'.sends u = pc.sends u)
    (hreceives : pc'.receives u = pc.receives u) (hissues : pc'.issues u = pc.issues u)
    (hfarewell : pc'.farewell = pc.farewell) (hbarriers : pc'.barriers = pc.barriers) :
    { u.serverAt rank pc with pc := pc' } = u.serverAt rank pc' := by
  simp only [serverAt, issuedAt, sentAt, socketAt, hsends, hreceives, hissues, hfarewell,
    hbarriers]

/-- A step that sends the next message of the protocol. -/
theorem serverAt_send {pc pc' : Pc} {message : Message}
    (hmessage : message = u.message (pc.sends u)) (hsends : pc'.sends u = pc.sends u + 1)
    (hreceives : pc'.receives u = pc.receives u) (hissues : pc'.issues u = pc.issues u)
    (hfarewell : pc.farewell = []) (hfarewell' : pc'.farewell = [])
    (hbarriers : pc'.barriers = pc.barriers) (hturn : pc.receives u = pc.sends u) :
    { (u.serverAt rank pc).send message with pc := pc' } = u.serverAt rank pc' := by
  simp [serverAt, Server.send, issuedAt, sentAt, socketAt, hsends, hreceives, hissues,
    hfarewell, hfarewell', hbarriers, List.range_succ, ← hmessage, hturn,
    alternating_send]

/-- The step that sends the exception. -/
theorem serverAt_exception {pc pc' : Pc} (hsends : pc'.sends u = pc.sends u)
    (hreceives : pc'.receives u = pc.receives u) (hissues : pc'.issues u = pc.issues u)
    (hfarewell : pc.farewell = []) (hfarewell' : pc'.farewell = [.exception])
    (hbarriers : pc'.barriers = pc.barriers) (hturn : pc.receives u = pc.sends u) :
    { (u.serverAt rank pc).send .exception with pc := pc' } = u.serverAt rank pc' := by
  simp [serverAt, Server.send, issuedAt, sentAt, socketAt, hsends, hreceives, hissues,
    hfarewell, hfarewell', hbarriers, hturn, alternating_send]

/-- A step that reads a reply. -/
theorem serverAt_recv {pc pc' : Pc} (hsends : pc'.sends u = pc.sends u)
    (hreceives : pc'.receives u = pc.receives u + 1) (hissues : pc'.issues u = pc.issues u)
    (hfarewell : pc.farewell = []) (hfarewell' : pc'.farewell = [])
    (hbarriers : pc'.barriers = pc.barriers) (hturn : pc.sends u = pc.receives u + 1) :
    { (u.serverAt rank pc).recv with pc := pc' } = u.serverAt rank pc' := by
  simp [serverAt, Server.recv, issuedAt, sentAt, socketAt, hsends, hreceives, hissues,
    hfarewell, hfarewell', hbarriers, hturn, alternating_recv]

/-- A step that issues the next collective of the loop. -/
theorem serverAt_issue {pc pc' : Pc} {collective : Collective}
    (hcollective : collective = u.collective rank (pc.issues u))
    (hsends : pc'.sends u = pc.sends u) (hreceives : pc'.receives u = pc.receives u)
    (hissues : pc'.issues u = pc.issues u + 1) (hfarewell : pc'.farewell = pc.farewell)
    (hbarriers : pc.barriers = []) (hbarriers' : pc'.barriers = []) :
    { (u.serverAt rank pc).issue collective with pc := pc' } = u.serverAt rank pc' := by
  simp [serverAt, Server.issue, issuedAt, sentAt, socketAt, hsends, hreceives, hissues,
    hfarewell, hbarriers, hbarriers', List.range_succ, ← hcollective]

/-- The step that issues the barrier. -/
theorem serverAt_barrier (exit : Exit) :
    { (u.serverAt rank (.barrier exit)).issue .barrier with pc := .awaitBarrier exit } =
      u.serverAt rank (.awaitBarrier exit) := by
  simp [serverAt, Server.issue, issuedAt, sentAt, socketAt, Pc.sends, Pc.receives, Pc.issues,
    Pc.farewell, Pc.exit?, Pc.barriers]

/-! ## Steps of the server -/

theorem enter_valid (u : Update) (g : Nat) : (u.enter g).Valid u := by
  simp only [enter]
  split
  · assumption
  · trivial

/-- The reply a server reads is the one its count of replies determines. -/
theorem WorkerInv.nextReply {x : RankState} {answer : Reply}
    (hw : WorkerInv u rank x.server x.worker) (hreply : x.nextReply = some answer) :
    answer = u.reply rank x.server.received ∧
      x.server.received < x.worker.replied.length := by
  simp only [RankState.nextReply] at hreply
  have hlt := (List.getElem?_eq_some_iff.mp hreply).1
  rw [hw.replied, List.getElem?_map, List.getElem?_range hlt] at hreply
  exact ⟨(Option.some.inj hreply).symm, hlt⟩

/-- A synchronized server has seen everything it has issued executed. -/
theorem ServerInv.synchronized {x : RankState} (hs : ServerInv u rank x.server x.device)
    (hsync : x.Synchronized) :
    x.device.executed = x.server.pc.issues u + x.server.pc.barriers.length := by
  rw [← hs.length_issued]
  exact hsync

/-- What the collectives of a turn have computed decides how the turn ends. -/
theorem ServerInv.decided {x : RankState} {g : Nat}
    (hs : ServerInv u rank x.server x.device) (hpc : x.server.pc = .synchronize g)
    (hsync : x.Synchronized) : x.device.retCode = 0 ↔ u.Clean g := by
  have hexecuted : x.device.executed = 2 * g + 2 := by
    rw [hs.synchronized hsync, hpc]
    rfl
  have hcode := hs.retCode
  rw [hpc] at hcode
  simp only [CodeAt, hexecuted, if_true] at hcode
  rw [hcode, total_eq_zero]

/-- Every step extends the record as its control point says. -/
theorem ServerMove.history {x : RankState} {s : Server} {d : Device}
    (hmove : ServerMove u rank x s d) (hs : ServerInv u rank x.server x.device)
    (hrounds : 0 < u.rounds) : s = u.serverAt rank s.pc := by
  have hat : ∀ pc, x.server.pc = pc → x.server = u.serverAt rank pc := by
    rintro _ rfl
    exact hs.history
  cases hmove with
  | sendHandle hpc =>
      have henter : u.enter 0 = .stage 0 := by simp [enter, hrounds]
      rw [hat _ hpc, henter]
      exact serverAt_send rfl rfl rfl rfl rfl rfl rfl rfl
  | stage hpc | skipStage hpc | stageError hpc | fill hpc | fillError hpc | join hpc | leave hpc =>
      rw [hat _ hpc]
      exact serverAt_goto rfl rfl rfl rfl rfl
  | recvReply hpc | recvLast hpc | recvRelease hpc | recvFinish hpc =>
      rw [hat _ hpc]
      exact serverAt_recv rfl rfl rfl rfl rfl rfl rfl
  | broadcast hpc =>
      rw [hat _ hpc]
      exact serverAt_issue (collective_even u rank _).symm rfl rfl rfl rfl rfl rfl
  | allReduce hpc =>
      rename_i g
      -- the server contributes the code of the reply it has read
      have hcontribution : x.device.retCode = u.code rank g := by
        have hcode := hs.retCode
        rwa [hpc] at hcode
      rw [hat _ hpc, hcontribution]
      exact serverAt_issue (collective_odd u rank g).symm rfl rfl rfl rfl rfl rfl
  | metadata hpc _ _ =>
      rename_i g _ _
      have hg : g < u.rounds := by
        have hvalid := hs.valid
        rwa [hpc] at hvalid
      rw [hat _ hpc]
      exact serverAt_send (message_metadata hg).symm (sends_enter hg) (receives_enter hg)
        (issues_enter hg) rfl (farewell_enter u _) (barriers_enter u _) rfl
  | exception hpc =>
      rw [hat _ hpc]
      exact serverAt_exception rfl rfl rfl rfl rfl rfl rfl
  | sendRelease hpc =>
      rw [hat _ hpc]
      exact serverAt_send (message_none (Nat.le_refl _)).symm rfl rfl rfl rfl rfl rfl rfl
  | sendFinish hpc =>
      rw [hat _ hpc]
      exact serverAt_send (message_none (Nat.le_succ _)).symm rfl rfl rfl rfl rfl rfl rfl
  | barrier hpc =>
      rw [hat _ hpc]
      exact serverAt_barrier _

/-- The reply that the server reads is the contribution it will make. -/
theorem ServerInv.read_code {x : RankState} {g : Nat} {answer : Reply}
    (hs : ServerInv u rank x.server x.device) (hw : WorkerInv u rank x.server x.worker)
    (hpc : x.server.pc = .recvReply g) (hreply : x.nextReply = some answer) :
    (if answer = .ok then x.device.retCode else 1) = u.code rank g := by
  have hreceived : x.server.received = g := by
    rw [hs.history, hpc]
    rfl
  have hzero : x.device.retCode = 0 := by
    have hcode := hs.retCode
    rwa [hpc] at hcode
  rw [(hw.nextReply hreply).1, hreceived, hzero, reply, code]
  cases u.replyRaises rank g <;> rfl

/-- The invariant behind a turn that has ended without an error. -/
theorem ServerInv.nextTurn {x : RankState} {g : Nat}
    (hs : ServerInv u rank x.server x.device) (hpc : x.server.pc = .synchronize g)
    (hsync : x.Synchronized) (hzero : x.device.retCode = 0) :
    (∀ k < (u.enter (g + 1)).cleared u, u.Clean k) ∧
      (u.enter (g + 1)).settled u ≤ x.device.executed ∧
      x.device.executed ≤ (u.enter (g + 1)).issues u + (u.enter (g + 1)).barriers.length ∧
      CodeAt u rank x.device (u.enter (g + 1)) := by
  have hturn := (hs.decided hpc hsync).mp hzero
  have hexecuted := hs.synchronized hsync
  have hvalid := hs.valid
  have hclean := hs.clean
  rw [hpc] at hexecuted hvalid hclean
  have hnext : g + 1 ≤ u.rounds := hvalid
  have hcount : x.device.executed = 2 * (g + 1) := hexecuted
  rw [cleared_enter hnext, settled_enter hnext, issues_enter hnext, hcount]
  refine ⟨fun k hk => ?_, Nat.le_refl _, Nat.le_add_right _ _, ?_⟩
  · rcases Nat.lt_succ_iff_lt_or_eq.mp hk with hlt | rfl
    · exact hclean k hlt
    · exact hturn
  · exact enter_at (fun pc => CodeAt u rank x.device pc) (fun _ => x.device.retCode = 0)
      hnext rfl rfl ▸ hzero

/-- A step of the server keeps the server's invariant. -/
theorem ServerMove.serverInv {x : RankState} {s : Server} {d : Device}
    (hmove : ServerMove u rank x s d) (hs : ServerInv u rank x.server x.device)
    (hw : WorkerInv u rank x.server x.worker) (hrounds : 0 < u.rounds) :
    ServerInv u rank s d := by
  have hrecord := hmove.history hs hrounds
  have ⟨_, hvalid, hclean, hsettled, hexecuted, hcode⟩ := hs
  cases hmove with
  | sendHandle hpc hworker =>
      rw [hpc] at hexecuted hcode
      have henter : u.enter 0 = .stage 0 := by simp [enter, hrounds]
      simp only [henter] at hrecord ⊢
      exact ⟨hrecord, hrounds, fun g hg => absurd hg (Nat.not_lt_zero g), Nat.zero_le _,
        hexecuted, hcode⟩
  | stage hpc | skipStage hpc | recvLast hpc | sendRelease hpc | recvRelease hpc
  | sendFinish hpc =>
      rw [hpc] at hvalid hclean hsettled hexecuted hcode
      exact ⟨hrecord, hvalid, hclean, hsettled, hexecuted, hcode⟩
  | stageError hpc | fillError hpc | recvFinish hpc | join hpc =>
      rw [hpc] at hvalid hclean hsettled hexecuted
      exact ⟨hrecord, hvalid, hclean, hsettled, hexecuted, trivial⟩
  | fill hpc hfill =>
      rw [hpc] at hvalid hclean hsettled hexecuted hcode
      rcases fillBuffer_cases hfill with ⟨_, bytes, rfl, _⟩ | ⟨_, rfl⟩
      · exact ⟨hrecord, hvalid, hclean, hsettled, hexecuted, hcode⟩
      · exact ⟨hrecord, hvalid, hclean, hsettled, hexecuted, hcode⟩
  | broadcast hpc =>
      rw [hpc] at hvalid hclean hsettled hexecuted hcode
      exact ⟨hrecord, hvalid, hclean, hsettled, hexecuted.trans (Nat.le_succ _), hcode⟩
  | recvReply hpc hreply =>
      have hread := hs.read_code hw hpc hreply
      rw [hpc] at hvalid hclean hsettled hexecuted
      exact ⟨hrecord, hvalid, hclean, hsettled, hexecuted, hread⟩
  | allReduce hpc =>
      rename_i g
      rw [hpc] at hvalid hclean hsettled hexecuted hcode
      have hlag : x.device.executed ≠ 2 * g + 2 := by
        simp only [Pc.issues, Pc.barriers, List.length_nil] at hexecuted
        omega
      refine ⟨hrecord, hvalid, hclean, hsettled, hexecuted.trans (Nat.le_succ _), ?_⟩
      simp only [CodeAt, if_neg hlag]
      exact hcode
  | metadata hpc hsync hzero =>
      obtain ⟨hclean, hsettled, hexecuted, hcode⟩ := hs.nextTurn hpc hsync hzero
      exact ⟨hrecord, enter_valid u _, hclean, hsettled, hexecuted, hcode⟩
  | exception hpc hsync hnonzero =>
      have hturn := mt (hs.decided hpc hsync).mpr hnonzero
      have hcount := hs.synchronized hsync
      rw [hpc] at hvalid hclean hexecuted hcount
      exact ⟨hrecord, ⟨hvalid, hturn⟩, hclean, hcount.ge, hexecuted, trivial⟩
  | barrier hpc =>
      rw [hpc] at hvalid hclean hsettled hexecuted
      exact ⟨hrecord, hvalid, hclean, hsettled, hexecuted.trans (Nat.le_succ _), trivial⟩
  | leave hpc hsync =>
      have hcount := hs.synchronized hsync
      rw [hpc] at hvalid hclean hexecuted hcount
      exact ⟨hrecord, hvalid, hclean, hcount.ge, hexecuted, trivial⟩

/-- A server sends ever more, and sends nothing after the exception. -/
theorem ServerMove.advance {x : RankState} {s : Server} {d : Device}
    (hmove : ServerMove u rank x s d) (hs : ServerInv u rank x.server x.device) :
    x.server.pc.sends u ≤ s.pc.sends u ∧
      (x.server.pc.farewell = [.exception] →
        s.pc.sends u = x.server.pc.sends u ∧ s.pc.farewell = [.exception]) := by
  have hvalid := hs.valid
  cases hmove with
  | sendHandle hpc _ =>
      rw [hpc]
      exact ⟨Nat.zero_le _, fun h => by simp [Pc.farewell, Pc.exit?] at h⟩
  | metadata hpc _ _ =>
      rw [hpc] at hvalid ⊢
      have hsends := sends_enter (u := u) hvalid
      refine ⟨?_, fun h => by simp [Pc.farewell, Pc.exit?] at h⟩
      exact (Nat.le_succ _).trans_eq hsends.symm
  | stage hpc _ _ | skipStage hpc _ | stageError hpc _ _ | fill hpc _ | fillError hpc _
  | broadcast hpc | recvReply hpc _ | allReduce hpc | exception hpc _ _ | recvLast hpc _
  | recvRelease hpc _ | recvFinish hpc _ =>
      rw [hpc]
      exact ⟨Nat.le_refl _, fun h => by simp [Pc.farewell, Pc.exit?] at h⟩
  | sendRelease hpc | sendFinish hpc =>
      rw [hpc]
      exact ⟨Nat.le_succ _, fun h => by simp [Pc.farewell, Pc.exit?] at h⟩
  | join hpc _ | barrier hpc | leave hpc _ =>
      rw [hpc]
      exact ⟨Nat.le_refl _, fun h => ⟨rfl, h⟩⟩

theorem Told.mono {pc pc' : Pc} {taken : Nat} {wpc : WorkerPc} (h : Told u pc taken wpc)
    (hle : pc.sends u ≤ pc'.sends u)
    (hfarewell : pc.farewell = [.exception] →
      pc'.sends u = pc.sends u ∧ pc'.farewell = [.exception]) : Told u pc' taken wpc := by
  unfold Told at h ⊢
  split at h
  · obtain ⟨htaken, hex⟩ := h
    obtain ⟨hsends, hex'⟩ := hfarewell hex
    exact ⟨hsends ▸ htaken, hex'⟩
  · obtain ⟨htaken, hex⟩ := h
    obtain ⟨hsends, hex'⟩ := hfarewell hex
    exact ⟨hsends ▸ htaken, hex'⟩
  · exact h.trans hle

/-- A step of the server keeps the worker's invariant. -/
theorem ServerMove.workerInv {x : RankState} {s : Server} {d : Device}
    (hmove : ServerMove u rank x s d) (hs : ServerInv u rank x.server x.device)
    (hw : WorkerInv u rank x.server x.worker) : WorkerInv u rank s x.worker := by
  obtain ⟨hle, hfarewell⟩ := hmove.advance hs
  refine ⟨hw.position, hw.told.mono hle hfarewell, hw.replied, hw.handed, ?_, ?_⟩
  · cases hmove with
    | recvReply _ hreply | recvLast _ hreply | recvRelease _ hreply | recvFinish _ hreply =>
        exact (hw.nextReply hreply).2
    | _ => exact hw.received
  · intro _
    cases hmove with
    | sendHandle _ hworker => exact hworker
    | stage hpc _ _ | skipStage hpc _ | stageError hpc _ _ | fill hpc _ | fillError hpc _
    | broadcast hpc | recvReply hpc _ | allReduce hpc | metadata hpc _ _ | exception hpc _ _
    | recvLast hpc _ | sendRelease hpc | recvRelease hpc _ | sendFinish hpc
    | recvFinish hpc _ | join hpc _ | barrier hpc | leave hpc _ =>
        exact hw.present (by simp [hpc])

/-! ## Steps of the stream -/

theorem ServerInv.issued_get {x : RankState} {k : Nat}
    (hs : ServerInv u rank x.server x.device) (hk : k < x.server.pc.issues u) :
    x.server.issued[k]? = some (u.collective rank k) := by
  rw [hs.history]
  exact issuedAt_getElem? hk

/-- The next collective of a stream, and where the server is that has issued it. -/
inductive Pending (u : Update) (rank : Rank) (pc : Pc) (k : Nat) (collective : Collective) :
    Prop where
  | broadcast {g : Nat} (hk : k = 2 * g) (hg : g < u.rounds)
      (hpc : pc = .recvReply g ∨ pc = .allReduce g ∨ pc = .synchronize g)
      (hcollective : collective = .broadcast (u.turn g).receiver (u.view g))
  | allReduce {g : Nat} (hk : k = 2 * g + 1) (hg : g < u.rounds) (hpc : pc = .synchronize g)
      (hcollective : collective = .allReduce (u.code rank g))
  | barrier {exit : Exit} (hk : k = exit.issues u) (hpc : pc = .awaitBarrier exit)
      (hcollective : collective = .barrier)

/-- A collective that is issued and not executed belongs to the present turn. -/
theorem ServerInv.pending {x : RankState} {collective : Collective}
    (hs : ServerInv u rank x.server x.device)
    (hissued : x.server.issued[x.device.executed]? = some collective) :
    Pending u rank x.server.pc x.device.executed collective := by
  have hlt := (List.getElem?_eq_some_iff.mp hissued).1
  have hget := fun k => hs.issued_get (k := k)
  have hsettled := hs.settled
  have hvalid := hs.valid
  rw [hs.history, serverAt, length_issuedAt] at hlt
  revert hlt hget hsettled hvalid
  cases hpc : x.server.pc with
  | recvReply g | allReduce g =>
      intro hlt hget hsettled hvalid
      simp only [Pc.settled, Pc.issues, Pc.barriers, List.length_nil] at hsettled hlt
      have hk : x.device.executed = 2 * g := by omega
      have hbroadcast := hget (2 * g) (Nat.lt_succ_self _)
      rw [← hk, hissued, hk, collective_even] at hbroadcast
      exact .broadcast hk hvalid (by simp) (Option.some.inj hbroadcast)
  | synchronize g =>
      intro hlt hget hsettled hvalid
      simp only [Pc.settled, Pc.issues, Pc.barriers, List.length_nil] at hsettled hlt
      rcases Nat.lt_or_ge x.device.executed (2 * g + 1) with hfirst | hsecond
      · have hk : x.device.executed = 2 * g := by omega
        have hbroadcast := hget (2 * g) (show 2 * g < 2 * g + 2 by omega)
        rw [← hk, hissued, hk, collective_even] at hbroadcast
        exact .broadcast hk hvalid (by simp) (Option.some.inj hbroadcast)
      · have hk : x.device.executed = 2 * g + 1 := by omega
        have hreduce := hget (2 * g + 1) (show 2 * g + 1 < 2 * g + 2 by omega)
        rw [← hk, hissued, hk, collective_odd] at hreduce
        exact .allReduce hk hvalid rfl (Option.some.inj hreduce)
  | awaitBarrier exit =>
      intro hlt hget hsettled hvalid
      simp only [Pc.settled, Pc.issues, Pc.barriers, List.length_singleton] at hsettled hlt
      have hk : x.device.executed = exit.issues u := by omega
      rw [hs.history, hpc, hk] at hissued
      have hbarrier : collective = .barrier := by
        simpa [serverAt, issuedAt, Pc.issues, Pc.barriers] using hissued.symm
      exact .barrier hk rfl hbarrier
  | left exit =>
      intro hlt _ hsettled _
      simp only [Pc.settled, Pc.issues, Pc.barriers, List.length_singleton] at hsettled hlt
      omega
  | sendHandle | stage g | fill g | broadcast g | recvLast | sendRelease | recvRelease
  | sendFinish | recvFinish | join exit | barrier exit =>
      intro hlt _ hsettled _
      simp only [Pc.settled, Pc.issues, Pc.barriers, List.length_nil] at hsettled hlt
      omega

/-- What is not the barrier has been issued in the loop. -/
theorem ServerInv.lt_issues {x : RankState} {k : Nat} {kind : CollectiveKind}
    (hs : ServerInv u rank x.server x.device)
    (hkind : (x.server.issued[k]?).map Collective.kind = some kind) (hne : kind ≠ .barrier) :
    k < x.server.pc.issues u := by
  by_contra hk
  obtain ⟨collective, hget, hcollective⟩ := Option.map_eq_some_iff.mp hkind
  rw [hs.history, serverAt, issuedAt,
    List.getElem?_append_right (by simpa using hk)] at hget
  have hbarrier : collective = .barrier := by
    have hmem := List.mem_of_getElem? hget
    unfold Pc.barriers at hmem
    split at hmem <;> simp_all
  rw [hbarrier] at hcollective
  exact hne hcollective.symm

/-- Every rank's part in the `all_reduce` of turn `g` is its own code. -/
theorem ServerInv.contribution {x : RankState} {g : Nat}
    (hs : ServerInv u rank x.server x.device)
    (hkind : (x.server.issued[2 * g + 1]?).map Collective.kind = some .allReduce) :
    x.server.issued[2 * g + 1]? = some (.allReduce (u.code rank g)) := by
  rw [hs.issued_get (hs.lt_issues hkind (by simp)), collective_odd]

/-- The `all_reduce` of turn `g` computes the turn's total. -/
theorem reduced_eq {s : State} {g : Nat}
    (hall : ∀ q ∈ u.ranks, ServerInv u q (s q).server (s q).device)
    (hstarted : ∀ q ∈ u.ranks, Started s q (2 * g + 1) .allReduce) :
    u.reduced s (2 * g + 1) = u.total g := by
  unfold reduced total
  congr 1
  apply List.map_congr_left
  intro q hq
  rw [(hall q hq).contribution (hstarted q hq).2]
  rfl

/-- A step of the stream keeps the server's invariant. -/
theorem StreamMove.serverInv {s : State} {d : Device} (hmove : StreamMove u s rank d)
    (hrank : rank ∈ u.ranks)
    (hall : ∀ q ∈ u.ranks, ServerInv u q (s q).server (s q).device) :
    ServerInv u rank (s rank).server d := by
  have hs := hall rank hrank
  obtain ⟨hexecuted, hlt⟩ := hmove.executed
  have hbound := hs.history ▸ hlt
  rw [serverAt, length_issuedAt] at hbound
  refine ⟨hs.history, hs.valid, hs.clean, ?_, hexecuted ▸ hbound, ?_⟩
  · rw [hexecuted]
    exact hs.settled.trans (Nat.le_succ _)
  · have hcode := hs.retCode
    cases hmove with
    | source hissued | broadcast _ hissued _ =>
        cases hs.pending hissued with
        | @broadcast g hk hg hpc _ =>
            rcases hpc with hpc | hpc | hpc
            · rw [hpc] at hcode ⊢
              exact hcode
            · rw [hpc] at hcode ⊢
              exact hcode
            · rw [hpc] at hcode ⊢
              have hbefore : (s rank).device.executed ≠ 2 * g + 2 := by omega
              have hafter : (s rank).device.executed + 1 ≠ 2 * g + 2 := by omega
              simp only [CodeAt, if_neg hbefore] at hcode
              simp only [CodeAt, if_neg hafter]
              exact hcode
        | allReduce _ _ _ hcollective => cases hcollective
        | barrier _ _ hcollective => cases hcollective
    | allReduce hissued hstarted =>
        cases hs.pending hissued with
        | allReduce hk hg hpc _ =>
            rw [hk] at hstarted
            rw [hpc]
            simp only [CodeAt, hk, if_true]
            exact reduced_eq hall hstarted
        | broadcast _ _ _ hcollective => cases hcollective
        | barrier _ _ hcollective => cases hcollective
    | barrier hissued _ =>
        cases hs.pending hissued with
        | barrier hk hpc _ =>
            rw [hpc]
            trivial
        | broadcast _ _ _ hcollective => cases hcollective
        | allReduce _ _ _ hcollective => cases hcollective

/-! ## Steps of the request thread and of the worker -/

/-- A step of the request thread keeps the invariants. -/
theorem RequestMove.inv {x : RankState} {request : RequestPc} {w : Worker}
    (hmove : RequestMove u rank x request w)
    (hw : WorkerInv u rank x.server x.worker) (hr : RequestInv u rank x.request x.worker.pc) :
    WorkerInv u rank x.server w ∧ RequestInv u rank request w.pc := by
  cases hmove with
  | raisesFirst hrequest hreq =>
      rw [hrequest] at hr
      cases hpc : x.worker.pc with
      | absent => exact ⟨hw, .raised hreq⟩
      | _ => rw [hpc] at hr; cases hr
  | starts hrequest hreq =>
      rw [hrequest] at hr
      cases hpc : x.worker.pc with
      | absent =>
          obtain ⟨hposition, htold, hreplied, hhanded, hreceived, hpresent⟩ := hw
          rw [hpc] at hposition htold hpresent
          exact ⟨⟨hposition, htold, hreplied, hhanded, hreceived, fun _ => by simp⟩,
            .started hreq (by simp)⟩
      | _ => rw [hpc] at hr; cases hr
  | ends hrequest hreq hwaits =>
      rw [hrequest] at hr
      cases hr with
      | started _ hpc => exact ⟨hw, .ended hreq hpc hwaits⟩

/-- The request thread does not care how far a running worker is. -/
theorem RequestInv.worker {request : RequestPc} {pc pc' : WorkerPc}
    (h : RequestInv u rank request pc) (hpc : pc ≠ .absent)
    (hrunning : ∀ exit, pc ≠ .exited exit) (hpc' : pc' ≠ .absent) :
    RequestInv u rank request pc' := by
  cases h with
  | called => exact absurd rfl hpc
  | raised _ => exact absurd rfl hpc
  | started hreq _ => exact .started hreq hpc'
  | ended hreq _ hwaits =>
      refine .ended hreq hpc' fun hw => ?_
      obtain ⟨exit, hexit⟩ := hwaits hw
      exact absurd hexit (hrunning exit)

/-- The message a worker reads is the one its count determines, or the exception. -/
theorem nextMessage_cases {x : RankState} {answer : Message}
    (hs : ServerInv u rank x.server x.device) (hmessage : x.nextMessage = some answer) :
    (x.worker.taken < x.server.pc.sends u ∧ answer = u.message x.worker.taken) ∨
      (x.worker.taken = x.server.pc.sends u ∧ x.server.pc.farewell = [.exception] ∧
        answer = .exception) := by
  simp only [RankState.nextMessage] at hmessage
  rw [hs.history] at hmessage
  by_cases hlt : x.worker.taken < x.server.pc.sends u
  · rw [serverAt, sentAt_getElem? hlt] at hmessage
    exact .inl ⟨hlt, (Option.some.inj hmessage).symm⟩
  · right
    simp only [serverAt, sentAt] at hmessage
    rw [List.getElem?_append_right (by simpa using hlt)] at hmessage
    have hfarewell : x.server.pc.farewell = [] ∨ x.server.pc.farewell = [.exception] := by
      simp only [Pc.farewell]
      cases x.server.pc.exit? with
      | none => exact .inl rfl
      | some exit => cases exit <;> simp [Exit.farewell]
    rcases hfarewell with hnone | hsome
    · simp [hnone] at hmessage
    · rw [hsome] at hmessage
      simp only [List.length_map, List.length_range, List.getElem?_singleton] at hmessage
      split at hmessage
      · rename_i hzero
        exact ⟨by omega, hsome, (Option.some.inj hmessage).symm⟩
      · contradiction

@[simp] theorem length_reply (w : Worker) (raised : Bool) :
    (w.reply raised).replied.length = w.replied.length + 1 := by
  simp [Worker.reply]

/-- A reply extends the transcript of replies. -/
theorem reply_replied {w : Worker} (raised : Bool)
    (hreplied : w.replied = (List.range w.replied.length).map (u.reply rank))
    (hraised : u.replyRaises rank w.replied.length = raised) :
    (w.reply raised).replied =
      (List.range (w.reply raised).replied.length).map (u.reply rank) := by
  rw [length_reply, List.range_succ, List.map_append, ← hreplied]
  simp [Worker.reply, reply, hraised]

/-- Metadata is only sent after a turn without an error. -/
theorem lt_cleared {pc : Pc} {g : Nat} (hsent : g + 1 < pc.sends u) (hg : g < u.rounds) :
    g < pc.cleared u := by
  cases pc with
  | sendHandle => simp [Pc.sends] at hsent
  | stage _ | fill _ | broadcast _ | recvReply _ | allReduce _ | synchronize _ =>
      simpa [Pc.sends, Pc.cleared] using hsent
  | recvLast | sendRelease | recvRelease | sendFinish | recvFinish => exact hg
  | join exit | barrier exit | awaitBarrier exit | left exit =>
      cases exit with
      | returned => exact hg
      | remoteError _ | localError _ =>
          simpa [Pc.sends, Pc.cleared, Exit.sends, Exit.cleared] using hsent

/-- A server that has sent more than the handle has seen its worker attach. -/
theorem ServerInv.attached {s : Server} {d : Device} (hs : ServerInv u rank s d)
    (hrank : rank ∈ u.ranks) (hrounds : 0 < u.rounds) (hsent : 1 < s.pc.sends u) :
    u.env.attachRaises rank = false :=
  hs.clean 0 (lt_cleared hsent hrounds) rank hrank

/-- The exception is sent behind the handle and before the end of the loop. -/
theorem ServerInv.exception_sent {s : Server} {d : Device} (hs : ServerInv u rank s d)
    (hfarewell : s.pc.farewell = [.exception]) : 1 ≤ s.pc.sends u ∧ s.pc.sends u ≤ u.rounds := by
  have hvalid := hs.valid
  revert hfarewell hvalid
  cases s.pc with
  | join exit | barrier exit | awaitBarrier exit | left exit =>
      cases exit with
      | remoteError g => exact fun _ hvalid => ⟨Nat.succ_pos g, hvalid.1⟩
      | returned | localError g => simp [Pc.farewell, Pc.exit?, Exit.farewell]
  | _ => simp [Pc.farewell, Pc.exit?]

/-- The worker takes a message. -/
theorem WorkerInv.take {s : Server} {w : Worker} {pc : WorkerPc} (hw : WorkerInv u rank s w)
    (hposition : WorkerAt u rank (w.taken + 1) w.replied.length pc)
    (htold : Told u s.pc (w.taken + 1) pc) (hpc : pc ≠ .absent) :
    WorkerInv u rank s { w with pc := pc, taken := w.taken + 1 } :=
  ⟨hposition, htold, hw.replied, hw.handed, hw.received, fun _ => hpc⟩

/-- The worker replies. -/
theorem WorkerInv.answer {s : Server} {w : Worker} {pc : WorkerPc} {raised : Bool}
    {handed : List (List Weight)} (hw : WorkerInv u rank s w)
    (hraised : u.replyRaises rank w.replied.length = raised)
    (hposition : WorkerAt u rank w.taken (w.replied.length + 1) pc)
    (htold : Told u s.pc w.taken pc) (hhanded : handed.length = min w.replied.length u.rounds)
    (hpc : pc ≠ .absent) :
    WorkerInv u rank s { w.reply raised with pc := pc, handed := handed } := by
  have hlength := length_reply w raised
  refine ⟨?_, htold, reply_replied raised hw.replied hraised, ?_, ?_, fun _ => hpc⟩
  · rw [hlength]
    exact hposition
  · rw [hlength]
    exact hhanded
  · rw [hlength]
    exact hw.received.trans (Nat.le_succ _)

theorem payloadTarget_present (released : Bool) (message : Message) :
    payloadTarget released message ≠ .absent := by
  cases message <;> cases released <;> simp [payloadTarget]

/-- Where a message leads a worker that waits for one. -/
theorem WorkerInv.payload {x : RankState} {released : Bool} {message : Message}
    (hw : WorkerInv u rank x.server x.worker) (hs : ServerInv u rank x.server x.device)
    (hpc : x.worker.pc = .recvPayload released) (hmessage : x.nextMessage = some message) :
    WorkerAt u rank (x.worker.taken + 1) x.worker.replied.length
        (payloadTarget released message) ∧
      Told u x.server.pc (x.worker.taken + 1) (payloadTarget released message) := by
  have hcase := nextMessage_cases hs hmessage
  have hposition := hw.position
  rw [hpc] at hposition
  cases released with
  | false =>
      obtain ⟨htaken, hpos, hle, hattach⟩ := hposition
      rcases hcase with ⟨hlt, rfl⟩ | ⟨heq, hex, rfl⟩
      · obtain ⟨g, hg⟩ : ∃ g, x.worker.taken = g + 1 := ⟨x.worker.taken - 1, by omega⟩
        rcases Nat.lt_or_ge g u.rounds with hlow | hhigh
        · -- the metadata of bucket `g`
          have hreplies : x.worker.replied.length - 1 = g := by omega
          rw [hg, message_metadata hlow]
          refine ⟨⟨by omega, hpos, by omega, ?_, hattach⟩, hg ▸ hlt⟩
          rw [hreplies]
        · rw [hg, message_none hhigh]
          exact ⟨⟨by omega, by omega⟩, hg ▸ hlt⟩
      · exact ⟨⟨by omega, hpos⟩, by rw [heq], hex⟩
  | true =>
      obtain ⟨htaken, hreplies, hrelease⟩ := hposition
      rcases hcase with ⟨hlt, rfl⟩ | ⟨heq, hex, rfl⟩
      · rw [htaken, message_none (Nat.le_succ _)]
        exact ⟨⟨rfl, hreplies, hrelease⟩, htaken ▸ hlt⟩
      · -- an exception is never sent after the loop
        have hsent := (hs.exception_sent hex).2
        omega

/-- The handle is taken, since no exception is sent before it. -/
theorem WorkerInv.recvHandle {x : RankState} {message : Message}
    (hw : WorkerInv u rank x.server x.worker) (hs : ServerInv u rank x.server x.device)
    (hpc : x.worker.pc = .recvHandle) (hmessage : x.nextMessage = some message) :
    WorkerInv u rank x.server { x.worker with pc := .attach, taken := x.worker.taken + 1 } := by
  have hposition := hw.position
  rw [hpc] at hposition
  obtain ⟨htaken, hreplies⟩ := hposition
  refine hw.take ⟨congrArg (· + 1) htaken, hreplies⟩ ?_ (by simp)
  rcases nextMessage_cases hs hmessage with ⟨hlt, _⟩ | ⟨heq, hex, _⟩
  · exact hlt
  · have hsent := (hs.exception_sent hex).1
    omega

/-- A worker that could not attach takes the server's exception, and nothing else comes. -/
theorem WorkerInv.recvAck {x : RankState} {message : Message}
    (hw : WorkerInv u rank x.server x.worker) (hs : ServerInv u rank x.server x.device)
    (hrank : rank ∈ u.ranks) (hrounds : 0 < u.rounds) (hpc : x.worker.pc = .recvAck)
    (hmessage : x.nextMessage = some message) :
    WorkerInv u rank x.server
      { x.worker with pc := .exited .attachError, taken := x.worker.taken + 1 } := by
  have hposition := hw.position
  rw [hpc] at hposition
  obtain ⟨htaken, hreplies, hraises⟩ := hposition
  refine hw.take ⟨congrArg (· + 1) htaken, hreplies⟩ ?_ (by simp)
  rcases nextMessage_cases hs hmessage with ⟨hlt, _⟩ | ⟨heq, hex, _⟩
  · rw [htaken] at hlt
    rw [hs.attached hrank hrounds hlt] at hraises
    contradiction
  · exact ⟨congrArg (· + 1) heq, hex⟩

/-- A reply behind all turns. -/
theorem WorkerInv.answerLate {s : Server} {w : Worker} {pc : WorkerPc} (hw : WorkerInv u rank s w)
    (hlate : u.rounds + 1 ≤ w.replied.length)
    (hposition : WorkerAt u rank w.taken (w.replied.length + 1) pc)
    (htold : Told u s.pc w.taken pc) (hpc : pc ≠ .absent) :
    WorkerInv u rank s { w.reply false with pc } := by
  have hhanded : w.handed.length = min w.replied.length u.rounds := by
    have := hw.handed
    omega
  exact hw.answer (replyRaises_late rank hlate) hposition htold hhanded hpc

/-- The worker ends without a reply. -/
theorem WorkerInv.stop {s : Server} {w : Worker} {exit : WorkerExit} (hw : WorkerInv u rank s w)
    (hposition : WorkerAt u rank w.taken w.replied.length (.exited exit))
    (htold : Told u s.pc w.taken (.exited exit)) :
    WorkerInv u rank s { w with pc := .exited exit } :=
  ⟨hposition, htold, hw.replied, hw.handed, hw.received, fun _ => by simp⟩

/-- A step of the worker keeps the worker's invariant. -/
theorem WorkerMove.workerInv {x : RankState} {w : Worker} (hmove : WorkerMove u rank x w)
    (hrank : rank ∈ u.ranks) (hrounds : 0 < u.rounds)
    (hs : ServerInv u rank x.server x.device) (hw : WorkerInv u rank x.server x.worker) :
    WorkerInv u rank x.server w := by
  have hposition := hw.position
  have htold := hw.told
  have hhanded := hw.handed
  cases hmove with
  | recvHandle hpc hmessage => exact hw.recvHandle hs hpc hmessage
  | attachError hpc hraises =>
      rw [hpc] at hposition htold
      obtain ⟨htaken, hreplies⟩ := hposition
      refine hw.answer ?_ ⟨htaken, by rw [hreplies], hraises⟩ htold ?_ (by simp)
      · rw [hreplies]
        exact hraises
      · rwa [hreplies] at hhanded ⊢
  | attach hpc hraises =>
      rw [hpc] at hposition htold
      obtain ⟨htaken, hreplies⟩ := hposition
      refine hw.answer ?_ ⟨by omega, by omega, by omega, hraises⟩ htold ?_ (by simp)
      · rw [hreplies]
        exact hraises
      · rwa [hreplies] at hhanded ⊢
  | recvAck hpc hmessage => exact hw.recvAck hs hrank hrounds hpc hmessage
  | recvPayload hpc hmessage =>
      obtain ⟨htarget, htold⟩ := hw.payload hs hpc hmessage
      exact hw.take htarget htold (payloadTarget_present _ _)
  | run hpc =>
      rw [hpc] at hposition htold
      obtain ⟨htaken, hpos, hle, hpayload, hattach⟩ := hposition
      have hcalls : x.worker.replied.length = x.worker.handed.length + 1 := by omega
      refine hw.answer ?_ ⟨htaken, by omega, by omega, hattach⟩ htold ?_ (by simp)
      · rw [hcalls]
        exact replyRaises_succ rank (by omega)
      · rw [List.length_append, List.length_singleton]
        omega
  | releaseError hpc hraises =>
      rw [hpc] at hposition htold
      obtain ⟨htaken, hreplies⟩ := hposition
      exact hw.stop ⟨htaken, hreplies, hraises⟩ htold
  | release hpc hraises =>
      rw [hpc] at hposition htold
      obtain ⟨htaken, hreplies⟩ := hposition
      exact hw.answerLate (by omega) ⟨htaken, by rw [hreplies], hraises⟩ htold (by simp)
  | finishError hpc hraises =>
      rw [hpc] at hposition htold
      obtain ⟨htaken, hreplies, hrelease⟩ := hposition
      exact hw.stop ⟨htaken, hreplies, hraises⟩ htold
  | finish hpc hraises =>
      rw [hpc] at hposition htold
      obtain ⟨htaken, hreplies, hrelease⟩ := hposition
      exact hw.answerLate (by omega) ⟨htaken, by rw [hreplies], hrelease, hraises⟩ htold (by simp)

/-- Only a running worker takes steps, and it stays or exits. -/
theorem WorkerMove.requestInv {x : RankState} {w : Worker} (hmove : WorkerMove u rank x w)
    (hr : RequestInv u rank x.request x.worker.pc) : RequestInv u rank x.request w.pc := by
  cases hmove with
  | recvPayload hpc _ =>
      exact hr.worker (by simp [hpc]) (by simp [hpc]) (payloadTarget_present _ _)
  | recvHandle hpc _ | attachError hpc _ | attach hpc _ | recvAck hpc _ | run hpc
  | releaseError hpc _ | release hpc _ | finishError hpc _ | finish hpc _ =>
      exact hr.worker (by simp [hpc]) (by simp [hpc]) (by simp)

/-! ## Every reachable state -/

theorem rankInv_initial (u : Update) (rank : Rank) : RankInv u rank (u.initial rank) where
  server := ⟨rfl, trivial, fun _ hg => absurd hg (Nat.not_lt_zero _), Nat.zero_le _,
    Nat.zero_le _, rfl⟩
  worker := ⟨⟨rfl, rfl⟩, Nat.le_refl _, rfl, rfl, Nat.le_refl _, fun h => absurd rfl h⟩
  request := .called

/-- Every step of a participating rank keeps its invariant. -/
theorem Move.rankInv {s : State} {x : RankState} (hmove : Move u s rank x)
    (hrank : rank ∈ u.ranks) (hall : ∀ q ∈ u.ranks, RankInv u q (s q)) :
    RankInv u rank x := by
  obtain ⟨hs, hw, hr⟩ := hall rank hrank
  cases hmove with
  | server hmove =>
      exact ⟨hmove.serverInv hs hw (rounds_pos u), hmove.workerInv hs hw, hr⟩
  | stream hmove =>
      exact ⟨hmove.serverInv hrank fun q hq => (hall q hq).server, hw, hr⟩
  | request hmove =>
      obtain ⟨hw', hr'⟩ := hmove.inv hw hr
      exact ⟨hs, hw', hr'⟩
  | worker hmove =>
      exact ⟨hs, hmove.workerInv hrank (rounds_pos u) hs hw, hmove.requestInv hr⟩

/-- A predicate on single ranks that every move keeps, given that all participating
ranks have it, holds of every participating rank in every reachable state. -/
theorem rank_invariant {P : Rank → RankState → Prop} (hinit : ∀ q ∈ u.ranks, P q (u.initial q))
    (hmove : ∀ s rank x, u.Reachable s → rank ∈ u.ranks → (∀ q ∈ u.ranks, P q (s q)) →
      Move u s rank x → P rank x)
    {s : State} (h : u.Reachable s) : ∀ q ∈ u.ranks, P q (s q) := by
  refine h.invariant (I := fun s => ∀ q ∈ u.ranks, P q (s q)) hinit ?_
  intro s agent t hreach hI hstep q hq
  obtain ⟨hmem, x, hx, rfl⟩ := step_move hstep
  by_cases hown : q = agent.rank
  · rw [hown, setRank_self]
    exact hmove s _ x hreach hmem hI hx
  · rw [setRank_other hown]
    exact hI q hq

/-- The invariant holds in every reachable state. -/
theorem rankInv {s : State} (h : u.Reachable s) : ∀ q ∈ u.ranks, RankInv u q (s q) :=
  rank_invariant (fun q _ => rankInv_initial u q)
    (fun _ _ _ _ hrank hall hmove => hmove.rankInv hrank hall) h

end CheckpointEngine.Update
