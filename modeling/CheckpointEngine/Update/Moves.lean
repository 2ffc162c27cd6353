/-
  `Update.Moves`: the steps of the four agents, branch by branch.

  Each step function of `Update.System` has a relation here with one rule for
  every branch that leads somewhere.  Everything that is proved about a step is
  proved by cases on these rules.
-/
import CheckpointEngine.Update.System

set_option autoImplicit false

namespace CheckpointEngine.Update

open CheckpointEngine.Foundation

variable {u : Update} {rank : Rank}

/-- What a parameter server in the state `x` may do. -/
inductive ServerMove (u : Update) (rank : Rank) (x : RankState) : Server → Device → Prop where
  | sendHandle (hpc : x.server.pc = .sendHandle) (hworker : x.worker.pc ≠ .absent) :
      ServerMove u rank x { x.server.send .handle with pc := u.enter 0 } x.device
  | stage {g : Nat} {bytes : Bytes} (hpc : x.server.pc = .stage g)
      (hstages : u.stages rank g = true)
      (hcopy : u.env.copyToBuffer rank (u.turn g).row = some bytes) :
      ServerMove u rank x { x.server with pc := .fill g }
        { x.device with h2dBuffer :=
            x.device.h2dBuffer.copy (u.stagedRegion rank (u.turn g).row) bytes 0 }
  | skipStage {g : Nat} (hpc : x.server.pc = .stage g) (hstages : u.stages rank g = false) :
      ServerMove u rank x { x.server with pc := .fill g } x.device
  | stageError {g : Nat} (hpc : x.server.pc = .stage g) (hstages : u.stages rank g = true)
      (hcopy : u.env.copyToBuffer rank (u.turn g).row = none) :
      ServerMove u rank x { x.server with pc := .join (.localError g) } x.device
  | fill {g : Nat} {device : Device} (hpc : x.server.pc = .fill g)
      (hfill : u.fillBuffer rank g x.device = some device) :
      ServerMove u rank x { x.server with pc := .broadcast g } device
  | fillError {g : Nat} (hpc : x.server.pc = .fill g)
      (hfill : u.fillBuffer rank g x.device = none) :
      ServerMove u rank x { x.server with pc := .join (.localError g) } x.device
  | broadcast {g : Nat} (hpc : x.server.pc = .broadcast g) :
      ServerMove u rank x
        { x.server.issue (.broadcast (u.turn g).receiver (u.view g)) with
          pc := .recvReply g } x.device
  | recvReply {g : Nat} {reply : Reply} (hpc : x.server.pc = .recvReply g)
      (hreply : x.nextReply = some reply) :
      ServerMove u rank x { x.server.recv with pc := .allReduce g }
        { x.device with retCode := if reply = .ok then x.device.retCode else 1 }
  | allReduce {g : Nat} (hpc : x.server.pc = .allReduce g) :
      ServerMove u rank x
        { x.server.issue (.allReduce x.device.retCode) with pc := .synchronize g } x.device
  | metadata {g : Nat} (hpc : x.server.pc = .synchronize g) (hsync : x.Synchronized)
      (hcode : x.device.retCode = 0) :
      ServerMove u rank x
        { x.server.send (.metadata (u.metadata g)) with pc := u.enter (g + 1) } x.device
  | exception {g : Nat} (hpc : x.server.pc = .synchronize g) (hsync : x.Synchronized)
      (hcode : x.device.retCode ≠ 0) :
      ServerMove u rank x
        { x.server.send .exception with pc := .join (.remoteError g) } x.device
  | recvLast {reply : Reply} (hpc : x.server.pc = .recvLast)
      (hreply : x.nextReply = some reply) :
      ServerMove u rank x { x.server.recv with pc := .sendRelease } x.device
  | sendRelease (hpc : x.server.pc = .sendRelease) :
      ServerMove u rank x { x.server.send .none with pc := .recvRelease } x.device
  | recvRelease {reply : Reply} (hpc : x.server.pc = .recvRelease)
      (hreply : x.nextReply = some reply) :
      ServerMove u rank x { x.server.recv with pc := .sendFinish } x.device
  | sendFinish (hpc : x.server.pc = .sendFinish) :
      ServerMove u rank x { x.server.send .none with pc := .recvFinish } x.device
  | recvFinish {reply : Reply} (hpc : x.server.pc = .recvFinish)
      (hreply : x.nextReply = some reply) :
      ServerMove u rank x { x.server.recv with pc := .join .returned } x.device
  | join {exit : Exit} {raised : Bool} (hpc : x.server.pc = .join exit)
      (hrequest : x.request = .ended raised) :
      ServerMove u rank x { x.server with pc := .barrier exit } x.device
  | barrier {exit : Exit} (hpc : x.server.pc = .barrier exit) :
      ServerMove u rank x { x.server.issue .barrier with pc := .awaitBarrier exit } x.device
  | leave {exit : Exit} (hpc : x.server.pc = .awaitBarrier exit) (hsync : x.Synchronized) :
      ServerMove u rank x { x.server with pc := .left exit } x.device

section ServerStep

variable {x : RankState} {server : Server} {device : Device} {g : Nat}

theorem serverStep_sendHandle (hpc : x.server.pc = .sendHandle)
    (h : u.serverStep rank x = some (server, device)) : ServerMove u rank x server device := by
  simp only [serverStep, hpc] at h
  split at h
  · contradiction
  · rename_i hworker
    cases h
    exact .sendHandle hpc hworker

/-- The bucket of a turn is staged where the rank stages it, and that may raise. -/
theorem serverStep_stage (hpc : x.server.pc = .stage g)
    (h : u.serverStep rank x = some (server, device)) : ServerMove u rank x server device := by
  simp only [serverStep, hpc] at h
  split at h
  · rename_i hstages
    split at h
    · rename_i hcopy
      cases h
      exact .stageError hpc hstages hcopy
    · rename_i bytes hcopy
      cases h
      exact .stage hpc hstages hcopy
  · rename_i hstages
    cases h
    exact .skipStage hpc (Bool.eq_false_iff.mpr hstages)

theorem serverStep_fill (hpc : x.server.pc = .fill g)
    (h : u.serverStep rank x = some (server, device)) : ServerMove u rank x server device := by
  simp only [serverStep, hpc] at h
  split at h
  · rename_i hfill
    cases h
    exact .fillError hpc hfill
  · rename_i device' hfill
    cases h
    exact .fill hpc hfill

/-- A turn ends with the metadata, or with an exception where some worker failed. -/
theorem serverStep_synchronize (hpc : x.server.pc = .synchronize g)
    (h : u.serverStep rank x = some (server, device)) : ServerMove u rank x server device := by
  simp only [serverStep, hpc] at h
  split at h
  · rename_i hsync
    split at h
    · rename_i hcode
      cases h
      exact .metadata hpc hsync hcode
    · rename_i hcode
      cases h
      exact .exception hpc hsync hcode
  · contradiction

theorem serverStep_join {exit : Exit} (hpc : x.server.pc = .join exit)
    (h : u.serverStep rank x = some (server, device)) : ServerMove u rank x server device := by
  simp only [serverStep, hpc] at h
  split at h
  · rename_i raised hrequest
    cases h
    exact .join hpc hrequest
  · contradiction

theorem serverStep_awaitBarrier {exit : Exit} (hpc : x.server.pc = .awaitBarrier exit)
    (h : u.serverStep rank x = some (server, device)) : ServerMove u rank x server device := by
  simp only [serverStep, hpc] at h
  split at h
  · rename_i hsync
    cases h
    exact .leave hpc hsync
  · contradiction

theorem serverStep_move (h : u.serverStep rank x = some (server, device)) :
    ServerMove u rank x server device := by
  cases hpc : x.server.pc with
  | sendHandle => exact serverStep_sendHandle hpc h
  | stage g => exact serverStep_stage hpc h
  | fill g => exact serverStep_fill hpc h
  | broadcast g =>
      simp only [serverStep, hpc] at h
      cases h
      exact .broadcast hpc
  | recvReply g =>
      simp only [serverStep, hpc] at h
      obtain ⟨reply, hreply, heq⟩ := Option.map_eq_some_iff.mp h
      cases heq
      exact .recvReply hpc hreply
  | allReduce g =>
      simp only [serverStep, hpc] at h
      cases h
      exact .allReduce hpc
  | synchronize g => exact serverStep_synchronize hpc h
  | recvLast =>
      simp only [serverStep, hpc] at h
      obtain ⟨reply, hreply, heq⟩ := Option.map_eq_some_iff.mp h
      cases heq
      exact .recvLast hpc hreply
  | sendRelease =>
      simp only [serverStep, hpc] at h
      cases h
      exact .sendRelease hpc
  | recvRelease =>
      simp only [serverStep, hpc] at h
      obtain ⟨reply, hreply, heq⟩ := Option.map_eq_some_iff.mp h
      cases heq
      exact .recvRelease hpc hreply
  | sendFinish =>
      simp only [serverStep, hpc] at h
      cases h
      exact .sendFinish hpc
  | recvFinish =>
      simp only [serverStep, hpc] at h
      obtain ⟨reply, hreply, heq⟩ := Option.map_eq_some_iff.mp h
      cases heq
      exact .recvFinish hpc hreply
  | join exit => exact serverStep_join hpc h
  | barrier exit =>
      simp only [serverStep, hpc] at h
      cases h
      exact .barrier hpc
  | awaitBarrier exit => exact serverStep_awaitBarrier hpc h
  | left exit =>
      simp only [serverStep, hpc] at h
      contradiction

end ServerStep

/-- The copy into the shared buffer touches nothing else on the device, and there
only the view of the turn. -/
theorem fillBuffer_cases {g : Nat} {d d' : Device} (h : u.fillBuffer rank g d = some d') :
    ((u.turn g).receiver = rank ∧
        ∃ bytes, d' = { d with buffer := d.buffer.copy (u.view g) bytes 0 } ∧
          ((u.disableH2dBuffer = true ∧
              u.env.copyToBuffer rank (u.turn g).row = some bytes) ∨
            (u.disableH2dBuffer = false ∧ bytes = d.h2dBuffer))) ∨
      ((u.turn g).receiver ≠ rank ∧ d' = d) := by
  simp only [fillBuffer] at h
  split at h
  · rename_i hreceiver
    split at h
    · rename_i hdisable
      obtain ⟨bytes, hcopy, rfl⟩ := Option.map_eq_some_iff.mp h
      exact .inl ⟨hreceiver, bytes, rfl, .inl ⟨hdisable, hcopy⟩⟩
    · rename_i hdisable
      cases h
      exact .inl ⟨hreceiver, _, rfl, .inr ⟨Bool.eq_false_iff.mpr hdisable, rfl⟩⟩
  · rename_i hreceiver
    cases h
    exact .inr ⟨hreceiver, rfl⟩

/-- What the stream of `rank` may do. -/
inductive StreamMove (u : Update) (s : State) (rank : Rank) : Device → Prop where
  | source {view : Region}
      (hissued : (s rank).server.issued[(s rank).device.executed]? =
        some (.broadcast rank view)) :
      StreamMove u s rank
        { (s rank).device with executed := (s rank).device.executed + 1 }
  | broadcast {source : Rank} {view : Region} (hsource : source ≠ rank)
      (hissued : (s rank).server.issued[(s rank).device.executed]? =
        some (.broadcast source view))
      (hstarted : Started s source (s rank).device.executed (.broadcast source view.size)) :
      StreamMove u s rank
        { (s rank).device with
          executed := (s rank).device.executed + 1
          buffer := (s rank).device.buffer.copy view (s source).device.buffer
            (viewOf s source (s rank).device.executed).start }
  | allReduce {retCode : Nat}
      (hissued : (s rank).server.issued[(s rank).device.executed]? =
        some (.allReduce retCode))
      (hstarted : ∀ q ∈ u.ranks, Started s q (s rank).device.executed .allReduce) :
      StreamMove u s rank
        { (s rank).device with
          executed := (s rank).device.executed + 1
          retCode := u.reduced s (s rank).device.executed }
  | barrier
      (hissued : (s rank).server.issued[(s rank).device.executed]? = some .barrier)
      (hstarted : ∀ q ∈ u.ranks, Started s q (s rank).device.executed .barrier) :
      StreamMove u s rank
        { (s rank).device with executed := (s rank).device.executed + 1 }

theorem streamStep_move {s : State} {device : Device}
    (h : u.streamStep s rank = some device) : StreamMove u s rank device := by
  simp only [streamStep] at h
  split at h
  · contradiction
  · rename_i source view hissued
    split at h
    · rename_i hsource
      subst hsource
      cases h
      exact .source hissued
    · rename_i hsource
      split at h
      · rename_i hstarted
        cases h
        exact .broadcast hsource hissued hstarted
      · contradiction
  · rename_i retCode hissued
    split at h
    · rename_i hstarted
      cases h
      exact .allReduce hissued hstarted
    · contradiction
  · rename_i hissued
    split at h
    · rename_i hstarted
      cases h
      exact .barrier hissued hstarted
    · contradiction

/-- A stream executes one collective more, one that its rank has issued. -/
theorem StreamMove.executed {s : State} {device : Device} (h : StreamMove u s rank device) :
    device.executed = (s rank).device.executed + 1 ∧
      (s rank).device.executed < (s rank).server.issued.length := by
  cases h with
  | source hissued => exact ⟨rfl, (List.getElem?_eq_some_iff.mp hissued).1⟩
  | broadcast _ hissued _ => exact ⟨rfl, (List.getElem?_eq_some_iff.mp hissued).1⟩
  | allReduce hissued _ => exact ⟨rfl, (List.getElem?_eq_some_iff.mp hissued).1⟩
  | barrier hissued _ => exact ⟨rfl, (List.getElem?_eq_some_iff.mp hissued).1⟩

/-- What the request thread may do. -/
inductive RequestMove (u : Update) (rank : Rank) (x : RankState) :
    RequestPc → Worker → Prop where
  | raisesFirst (hrequest : x.request = .called) (hreq : u.env.reqFunc rank = .raisesFirst) :
      RequestMove u rank x (.ended true) x.worker
  | starts {waits raisesLater : Bool} (hrequest : x.request = .called)
      (hreq : u.env.reqFunc rank = .starts waits raisesLater) :
      RequestMove u rank x .started { x.worker with pc := .recvHandle }
  | ends {waits raisesLater : Bool} (hrequest : x.request = .started)
      (hreq : u.env.reqFunc rank = .starts waits raisesLater)
      (hwaits : waits = true → ∃ exit, x.worker.pc = .exited exit) :
      RequestMove u rank x (.ended raisesLater) x.worker

theorem requestStep_move {x : RankState} {request : RequestPc} {worker : Worker}
    (h : u.requestStep rank x = some (request, worker)) :
    RequestMove u rank x request worker := by
  simp only [requestStep] at h
  split at h
  · rename_i hrequest hreq
    cases h
    exact .raisesFirst hrequest hreq
  · rename_i waits raisesLater hrequest hreq
    cases h
    exact .starts hrequest hreq
  · rename_i waits raisesLater hrequest hreq
    split at h
    · rename_i exit hworker
      cases h
      exact .ends hrequest hreq fun _ => ⟨exit, hworker⟩
    · contradiction
    · cases h
      exact .ends hrequest hreq fun hwaits => Bool.noConfusion hwaits
  · contradiction

/-- What a worker may do. -/
inductive WorkerMove (u : Update) (rank : Rank) (x : RankState) : Worker → Prop where
  | recvHandle {message : Message} (hpc : x.worker.pc = .recvHandle)
      (hmessage : x.nextMessage = some message) :
      WorkerMove u rank x { x.worker with pc := .attach, taken := x.worker.taken + 1 }
  | attachError (hpc : x.worker.pc = .attach) (hraises : u.env.attachRaises rank = true) :
      WorkerMove u rank x { x.worker.reply true with pc := .recvAck }
  | attach (hpc : x.worker.pc = .attach) (hraises : u.env.attachRaises rank = false) :
      WorkerMove u rank x { x.worker.reply false with pc := .recvPayload false }
  | recvAck {message : Message} (hpc : x.worker.pc = .recvAck)
      (hmessage : x.nextMessage = some message) :
      WorkerMove u rank x
        { x.worker with pc := .exited .attachError, taken := x.worker.taken + 1 }
  | recvPayload {released : Bool} {message : Message}
      (hpc : x.worker.pc = .recvPayload released)
      (hmessage : x.nextMessage = some message) :
      WorkerMove u rank x
        { x.worker with pc := payloadTarget released message, taken := x.worker.taken + 1 }
  | run {payload : List NamedTensor} (hpc : x.worker.pc = .run payload) :
      WorkerMove u rank x
        { x.worker.reply (u.env.runRaises rank x.worker.handed.length) with
          pc := .recvPayload false
          handed := x.worker.handed ++ [extractWeights x.device.buffer payload] }
  | releaseError (hpc : x.worker.pc = .release) (hraises : u.env.releaseRaises rank = true) :
      WorkerMove u rank x { x.worker with pc := .exited .releaseError }
  | release (hpc : x.worker.pc = .release) (hraises : u.env.releaseRaises rank = false) :
      WorkerMove u rank x { x.worker.reply false with pc := .recvPayload true }
  | finishError (hpc : x.worker.pc = .finish) (hraises : u.env.postHookRaises rank = true) :
      WorkerMove u rank x { x.worker with pc := .exited .postHookError }
  | finish (hpc : x.worker.pc = .finish) (hraises : u.env.postHookRaises rank = false) :
      WorkerMove u rank x { x.worker.reply false with pc := .exited .returned }

theorem workerStep_move {x : RankState} {worker : Worker}
    (h : u.workerStep rank x = some worker) : WorkerMove u rank x worker := by
  cases hpc : x.worker.pc with
  | absent =>
      simp only [workerStep, hpc] at h
      contradiction
  | recvHandle =>
      simp only [workerStep, hpc] at h
      obtain ⟨message, hmessage, rfl⟩ := Option.map_eq_some_iff.mp h
      exact .recvHandle hpc hmessage
  | attach =>
      simp only [workerStep, hpc] at h
      split at h
      · rename_i hraises
        cases h
        exact .attachError hpc hraises
      · rename_i hraises
        cases h
        exact .attach hpc (Bool.eq_false_iff.mpr hraises)
  | recvAck =>
      simp only [workerStep, hpc] at h
      obtain ⟨message, hmessage, rfl⟩ := Option.map_eq_some_iff.mp h
      exact .recvAck hpc hmessage
  | recvPayload released =>
      simp only [workerStep, hpc] at h
      obtain ⟨message, hmessage, rfl⟩ := Option.map_eq_some_iff.mp h
      exact .recvPayload hpc hmessage
  | run payload =>
      simp only [workerStep, hpc] at h
      cases h
      exact .run hpc
  | release =>
      simp only [workerStep, hpc] at h
      split at h
      · rename_i hraises
        cases h
        exact .releaseError hpc hraises
      · rename_i hraises
        cases h
        exact .release hpc (Bool.eq_false_iff.mpr hraises)
  | finish =>
      simp only [workerStep, hpc] at h
      split at h
      · rename_i hraises
        cases h
        exact .finishError hpc hraises
      · rename_i hraises
        cases h
        exact .finish hpc (Bool.eq_false_iff.mpr hraises)
  | exited exit =>
      simp only [workerStep, hpc] at h
      contradiction

/-- Every step of the machine is a move of one agent of one participating rank. -/
inductive Move (u : Update) (s : State) (rank : Rank) : RankState → Prop where
  | server {server : Server} {device : Device} (hmove : ServerMove u rank (s rank) server device) :
      Move u s rank { s rank with server, device }
  | stream {device : Device} (hmove : StreamMove u s rank device) :
      Move u s rank { s rank with device }
  | request {request : RequestPc} {worker : Worker}
      (hmove : RequestMove u rank (s rank) request worker) :
      Move u s rank { s rank with request, worker }
  | worker {worker : Worker} (hmove : WorkerMove u rank (s rank) worker) :
      Move u s rank { s rank with worker }

theorem step_move {s t : State} {agent : Agent} (h : u.machine.step s agent = some t) :
    agent.rank ∈ u.ranks ∧ ∃ x, Move u s agent.rank x ∧ t = setRank s agent.rank x := by
  obtain ⟨hmem, x, hx, rfl⟩ := step_cases h
  refine ⟨hmem, x, ?_, rfl⟩
  cases agent with
  | server rank =>
      obtain ⟨⟨server, device⟩, hstep, rfl⟩ := Option.map_eq_some_iff.mp hx
      exact .server (serverStep_move hstep)
  | stream rank =>
      obtain ⟨device, hstep, rfl⟩ := Option.map_eq_some_iff.mp hx
      exact .stream (streamStep_move hstep)
  | request rank =>
      obtain ⟨⟨request, worker⟩, hstep, rfl⟩ := Option.map_eq_some_iff.mp hx
      exact .request (requestStep_move hstep)
  | worker rank =>
      obtain ⟨worker, hstep, rfl⟩ := Option.map_eq_some_iff.mp hx
      exact .worker (workerStep_move hstep)

end CheckpointEngine.Update
