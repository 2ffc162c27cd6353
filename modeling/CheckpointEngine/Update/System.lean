/-
  `Update.System`: one update, as a machine of agents.

  Every participating rank contributes four agents: its parameter server
  (`_update_per_bucket` in `checkpoint_engine/ps.py`, from `req_thread.start()`
  on), its device stream, the thread that runs `req_func`, and the inference
  worker (`update_weights_from_ipc` in `checkpoint_engine/worker.py`).  A run is
  any interleaving of their steps.

  What is taken from outside the source:

  * the REQ/REP socket delivers messages reliably and in order; a server's send
    blocks while no worker has connected, a receive blocks until a message is
    there;
  * a device stream executes the collectives its rank has issued in their order.
    A broadcast is executed at its source at once and elsewhere when the source
    has started it; `all_reduce` and `barrier` are executed when every rank has
    started them.  A rank starts a collective when its stream reaches it, and the
    ranks' calls are matched by position: a rank waits for ever for a call that
    another rank answers with a different one;
  * whether a callback, a copy or a release raises is up to the environment.
-/
import CheckpointEngine.Update.Schedule
import CheckpointEngine.Foundation.Machine

set_option autoImplicit false

namespace CheckpointEngine

open CheckpointEngine.Foundation

namespace Update

/-! ## The call and its environment -/

/-- What `req_func` does with the socket paths it is called with. -/
inductive ReqFunc where
  /-- it raises before it has reached the worker -/
  | raisesFirst
  /-- it starts the worker; then it may wait for the worker to be done, and in
  the end return or raise -/
  | starts (waits raisesLater : Bool)
  deriving DecidableEq, Repr, Inhabited

/-- What the calls out of the update answer, on each rank. -/
structure Environment where
  /-- the contents `_copy_to_buffer` produces for the rank's bucket of outer
  iteration `i`, or `none` when it raises -/
  copyToBuffer : Rank → Nat → Option Bytes
  reqFunc : Rank → ReqFunc
  attachRaises : Rank → Bool
  /-- whether the `k`-th call of `run` raises -/
  runRaises : Rank → Nat → Bool
  /-- `synchronize` or `detach` raises when the buffer is released -/
  releaseRaises : Rank → Bool
  postHookRaises : Rank → Bool
  /-- what `torch.empty` finds in device memory -/
  uninitialised : Rank → Bytes

end Update

/-- One update: the participating ranks, the plan they share, and the
environment.  The planner never returns an empty plan, and a legal source of a
broadcast is a member of the group. -/
structure Update where
  ranks : List Rank
  bucketSize : Nat
  disableH2dBuffer : Bool
  buckets : List Update.Planned
  env : Update.Environment
  buckets_ne : buckets ≠ []
  receiver_mem : ∀ b ∈ buckets, b.1 ∈ ranks
  size_le : ∀ b ∈ buckets, b.2.2.size ≤ bucketSize

namespace Update

/-- The turns of the update. -/
def turns (u : Update) : List Turn := turnsOf u.buckets

/-- The number of turns. -/
def rounds (u : Update) : Nat := u.turns.length

/-- Turn `g`, for `g < u.rounds`. -/
def turn (u : Update) (g : Nat) : Turn := u.turns.getD g default

/-- `start = gidx % 2 * bucket_size`. -/
def start (u : Update) (g : Nat) : Nat := g % 2 * u.bucketSize

/-- `buffer[start : start + bucket.size]`: where bucket `g` lies in the shared buffer. -/
def view (u : Update) (g : Nat) : Region := ⟨u.start g, (u.turn g).bucket.size⟩

/-- The metadata sent for bucket `g`. -/
def metadata (u : Update) (g : Nat) : List NamedTensor :=
  toNamedTensor (u.turn g).bucket.items (u.start g)

/-! ## Turns -/

/-- There is a first turn. -/
theorem rounds_pos (u : Update) : 0 < u.rounds := by
  rw [rounds, turns, turnsOf_length]
  exact List.length_pos_iff.mpr u.buckets_ne

theorem turn_eq_getElem (u : Update) {g : Nat} (hg : g < u.rounds) :
    u.turn g = u.turns.get ⟨g, hg⟩ := by
  rw [turn, List.getD_eq_getElem?_getD, List.getElem?_eq_getElem hg]
  rfl

theorem turn_mem (u : Update) {g : Nat} (hg : g < u.rounds) :
    u.turn g ∈ turnsOf u.buckets := by
  rw [turn_eq_getElem u hg]
  exact List.get_mem u.turns ⟨g, hg⟩

/-- The source of a broadcast is a member of the group. -/
theorem turn_receiver_mem (u : Update) {g : Nat} (hg : g < u.rounds) :
    (u.turn g).receiver ∈ u.ranks := by
  obtain ⟨b, hb, hreceiver, _⟩ := turnsOf_mem (turn_mem u hg)
  exact hreceiver ▸ u.receiver_mem b hb

theorem turn_size_le (u : Update) (g : Nat) : (u.turn g).bucket.size ≤ u.bucketSize := by
  rw [turn, List.getD_eq_getElem?_getD]
  cases hget : u.turns[g]? with
  | none => exact Nat.zero_le _
  | some turn =>
      obtain ⟨b, hb, _, hbucket⟩ := turnsOf_mem (List.mem_of_getElem? hget)
      exact hbucket ▸ u.size_le b hb

/-- A turn that opens no row is of the row of the turn before. -/
theorem turn_sameRow (u : Update) {g : Nat} (hg : g + 1 < u.rounds)
    (hopens : (u.turn (g + 1)).opensRow = false) : (u.turn (g + 1)).row = (u.turn g).row := by
  rw [turn_eq_getElem u hg] at hopens ⊢
  rw [turn_eq_getElem u (Nat.lt_of_succ_lt hg)]
  exact turnsOf_sameRow u.buckets hg hopens

theorem turn_first (u : Update) : (u.turn 0).opensRow = true := by
  rw [turn_eq_getElem u (rounds_pos u)]
  exact turnsOf_first u.buckets (rounds_pos u)

/-! ## Messages, collectives and control points -/

/-- What the server sends to its worker. -/
inductive Message where
  | handle
  | metadata (payload : List NamedTensor)
  | exception
  | none
  deriving DecidableEq, Repr, Inhabited

/-- What the worker replies: `b""`, or the text of an exception. -/
inductive Reply where
  | ok
  | error
  deriving DecidableEq, Repr, Inhabited

/-- A call on the server's REQ socket. -/
inductive SocketCall where
  | send
  | recv
  deriving DecidableEq, Repr, Inhabited

/-- A collective as a rank issues it: `dist.broadcast` of a view of its own
buffer, `dist.all_reduce` of `ret_code`, `dist.barrier`. -/
inductive Collective where
  | broadcast (source : Rank) (view : Region)
  | allReduce (retCode : Nat)
  | barrier
  deriving DecidableEq, Repr

/-- What has to agree between the ranks. -/
inductive CollectiveKind where
  | broadcast (source : Rank) (size : Nat)
  | allReduce
  | barrier
  deriving DecidableEq, Repr

/-- The kind of a collective. -/
def Collective.kind : Collective → CollectiveKind
  | .broadcast source view => .broadcast source view.size
  | .allReduce _ => .allReduce
  | .barrier => .barrier

/-- The `ret_code` a rank contributes to an `all_reduce`. -/
def Collective.contribution : Collective → Nat
  | .allReduce retCode => retCode
  | _ => 0

/-- How a server comes to the `finally` block. -/
inductive Exit where
  | returned
  /-- the `RuntimeError` raised in turn `g` because some worker failed -/
  | remoteError (g : Nat)
  /-- an exception of `_copy_to_buffer` in turn `g` -/
  | localError (g : Nat)
  deriving DecidableEq, Repr, Inhabited

/-- Where a server is: the call it is about to make.  The loop variable `gidx` is
the argument of the control points of the loop. -/
inductive Pc where
  | sendHandle
  | stage (g : Nat)
  | fill (g : Nat)
  | broadcast (g : Nat)
  | recvReply (g : Nat)
  | allReduce (g : Nat)
  | synchronize (g : Nat)
  | recvLast
  | sendRelease
  | recvRelease
  | sendFinish
  | recvFinish
  | join (exit : Exit)
  | barrier (exit : Exit)
  | awaitBarrier (exit : Exit)
  | left (exit : Exit)
  deriving DecidableEq, Repr, Inhabited

/-- Where the thread of `req_func` is. -/
inductive RequestPc where
  | called
  | started
  | ended (raised : Bool)
  deriving DecidableEq, Repr, Inhabited

/-- Why a worker's function ended. -/
inductive WorkerExit where
  | returned
  | attachError
  | forced
  | releaseError
  | postHookError
  | unexpectedPayload
  deriving DecidableEq, Repr, Inhabited

/-- Where a worker is. -/
inductive WorkerPc where
  | absent
  | recvHandle
  | attach
  | recvAck
  | recvPayload (released : Bool)
  | run (payload : List NamedTensor)
  | release
  | finish
  | exited (exit : WorkerExit)
  deriving DecidableEq, Repr, Inhabited

/-! ## States -/

/-- The host side of a parameter server. -/
structure Server where
  pc : Pc
  /-- the collectives issued so far -/
  issued : List Collective
  /-- the messages sent so far -/
  sent : List Message
  /-- the number of replies read so far -/
  received : Nat
  /-- the calls made on the socket so far -/
  socket : List SocketCall

/-- The device side of a parameter server. -/
structure Device where
  /-- the number of collectives the stream has executed -/
  executed : Nat
  retCode : Nat
  h2dBuffer : Bytes
  /-- the buffer shared with the worker, `2 * bucket_size` bytes -/
  buffer : Bytes

/-- A tensor as `run` gets it. -/
structure Weight where
  name : String
  dtype : DType
  shape : TorchSize
  bytes : List UInt8
  deriving DecidableEq, Repr

/-- An inference worker. -/
structure Worker where
  pc : WorkerPc
  /-- the number of messages read so far -/
  taken : Nat
  /-- the replies sent so far -/
  replied : List Reply
  /-- the arguments `run` has been called with -/
  handed : List (List Weight)

/-- One participating rank. -/
structure RankState where
  server : Server
  device : Device
  request : RequestPc
  worker : Worker

/-- All ranks. -/
abbrev State := Rank → RankState

/-- The agents of a rank. -/
inductive Agent where
  | server (rank : Rank)
  | stream (rank : Rank)
  | request (rank : Rank)
  | worker (rank : Rank)
  deriving DecidableEq, Repr

/-- The state in which `req_thread.start()` has just returned on every rank. -/
def initial (u : Update) : State := fun rank =>
  { server := ⟨.sendHandle, [], [], 0, []⟩
    device := ⟨0, 0, u.env.uninitialised rank, u.env.uninitialised rank⟩
    request := .called
    worker := ⟨.absent, 0, [], []⟩ }

/-! ## The parameter server -/

/-- `socket.send_pyobj(message)`. -/
def Server.send (s : Server) (message : Message) : Server :=
  { s with sent := s.sent ++ [message], socket := s.socket ++ [.send] }

/-- `socket.recv()`, once a reply is there. -/
def Server.recv (s : Server) : Server :=
  { s with received := s.received + 1, socket := s.socket ++ [.recv] }

/-- A collective call. -/
def Server.issue (s : Server) (collective : Collective) : Server :=
  { s with issued := s.issued ++ [collective] }

/-- Where the loop goes on after `g` turns. -/
def enter (u : Update) (g : Nat) : Pc :=
  if g < u.rounds then .stage g else .recvLast

/-- The rank stages a bucket before turn `g`: the turn opens its row, the rank
has a bucket in that row, and the h2d buffer is in use. -/
def stages (u : Update) (rank : Rank) (g : Nat) : Bool :=
  (u.turn g).opensRow && !u.disableH2dBuffer &&
    decide ((u.turn g).row < (receiverRankBuckets rank u.buckets).length)

/-- The region of the h2d buffer that the rank's bucket of outer iteration `i` takes. -/
def stagedRegion (u : Update) (rank : Rank) (i : Nat) : Region :=
  ⟨0, (((receiverRankBuckets rank u.buckets)[i]?).map (·.2.size)).getD 0⟩

/-- The copy into the rank's own part of the broadcast, in the rank's own turn:
straight from the registered memory, or from the h2d buffer. -/
def fillBuffer (u : Update) (rank : Rank) (g : Nat) (device : Device) : Option Device :=
  if (u.turn g).receiver = rank then
    if u.disableH2dBuffer then
      (u.env.copyToBuffer rank (u.turn g).row).map fun bytes =>
        { device with buffer := device.buffer.copy (u.view g) bytes 0 }
    else
      some { device with buffer := device.buffer.copy (u.view g) device.h2dBuffer 0 }
  else
    some device

/-- The reply the server reads next, if it is there. -/
def RankState.nextReply (x : RankState) : Option Reply := x.worker.replied[x.server.received]?

/-- All collectives the rank has issued are executed: `synchronize` returns. -/
def RankState.Synchronized (x : RankState) : Prop :=
  x.device.executed = x.server.issued.length

instance (x : RankState) : Decidable x.Synchronized :=
  inferInstanceAs (Decidable (_ = _))

/-- One step of a parameter server. -/
def serverStep (u : Update) (rank : Rank) (x : RankState) : Option (Server × Device) :=
  let s := x.server
  let d := x.device
  match s.pc with
  | .sendHandle =>
      if x.worker.pc = .absent then none
      else some ({ s.send .handle with pc := u.enter 0 }, d)
  | .stage g =>
      if u.stages rank g then
        match u.env.copyToBuffer rank (u.turn g).row with
        | none => some ({ s with pc := .join (.localError g) }, d)
        | some bytes =>
            some ({ s with pc := .fill g },
              { d with h2dBuffer :=
                  d.h2dBuffer.copy (u.stagedRegion rank (u.turn g).row) bytes 0 })
      else
        some ({ s with pc := .fill g }, d)
  | .fill g =>
      match u.fillBuffer rank g d with
      | none => some ({ s with pc := .join (.localError g) }, d)
      | some d => some ({ s with pc := .broadcast g }, d)
  | .broadcast g =>
      some ({ s.issue (.broadcast (u.turn g).receiver (u.view g)) with
        pc := .recvReply g }, d)
  | .recvReply g =>
      x.nextReply.map fun reply =>
        ({ s.recv with pc := .allReduce g },
          { d with retCode := if reply = .ok then d.retCode else 1 })
  | .allReduce g =>
      some ({ s.issue (.allReduce d.retCode) with pc := .synchronize g }, d)
  | .synchronize g =>
      if x.Synchronized then
        if d.retCode = 0 then
          some ({ s.send (.metadata (u.metadata g)) with pc := u.enter (g + 1) }, d)
        else
          some ({ s.send .exception with pc := .join (.remoteError g) }, d)
      else none
  | .recvLast => x.nextReply.map fun _ => ({ s.recv with pc := .sendRelease }, d)
  | .sendRelease => some ({ s.send .none with pc := .recvRelease }, d)
  | .recvRelease => x.nextReply.map fun _ => ({ s.recv with pc := .sendFinish }, d)
  | .sendFinish => some ({ s.send .none with pc := .recvFinish }, d)
  | .recvFinish => x.nextReply.map fun _ => ({ s.recv with pc := .join .returned }, d)
  | .join exit =>
      match x.request with
      | .ended _ => some ({ s with pc := .barrier exit }, d)
      | _ => none
  | .barrier exit => some ({ s.issue .barrier with pc := .awaitBarrier exit }, d)
  | .awaitBarrier exit => if x.Synchronized then some ({ s with pc := .left exit }, d) else none
  | .left _ => none

/-! ## The device stream -/

/-- The `k`-th collective of `rank` is of this kind and its stream has reached it. -/
def Started (s : State) (rank : Rank) (k : Nat) (kind : CollectiveKind) : Prop :=
  k ≤ (s rank).device.executed ∧ ((s rank).server.issued[k]?).map Collective.kind = some kind

instance (s : State) (rank : Rank) (k : Nat) (kind : CollectiveKind) :
    Decidable (Started s rank k kind) :=
  inferInstanceAs (Decidable (_ ∧ _))

/-- The view of its own buffer that `rank` passes to its `k`-th collective. -/
def viewOf (s : State) (rank : Rank) (k : Nat) : Region :=
  match (s rank).server.issued[k]? with
  | some (.broadcast _ view) => view
  | _ => ⟨0, 0⟩

/-- The sum an `all_reduce` at position `k` computes. -/
def reduced (u : Update) (s : State) (k : Nat) : Nat :=
  (u.ranks.map fun q => (((s q).server.issued[k]?).map Collective.contribution).getD 0).sum

/-- One step of a device stream: it executes the next collective. -/
def streamStep (u : Update) (s : State) (rank : Rank) : Option Device :=
  let d := (s rank).device
  let k := d.executed
  match (s rank).server.issued[k]? with
  | none => none
  | some (.broadcast source view) =>
      if source = rank then
        some { d with executed := k + 1 }
      else if Started s source k (.broadcast source view.size) then
        some { d with
          executed := k + 1
          buffer := d.buffer.copy view (s source).device.buffer (viewOf s source k).start }
      else none
  | some (.allReduce _) =>
      if ∀ q ∈ u.ranks, Started s q k .allReduce then
        some { d with executed := k + 1, retCode := u.reduced s k }
      else none
  | some .barrier =>
      if ∀ q ∈ u.ranks, Started s q k .barrier then
        some { d with executed := k + 1 }
      else none

/-! ## The thread of `req_func` -/

/-- One step of the request thread: it starts the worker, or it ends. -/
def requestStep (u : Update) (rank : Rank) (x : RankState) : Option (RequestPc × Worker) :=
  match x.request, u.env.reqFunc rank with
  | .called, .raisesFirst => some (.ended true, x.worker)
  | .called, .starts _ _ => some (.started, { x.worker with pc := .recvHandle })
  | .started, .starts waits raisesLater =>
      match waits, x.worker.pc with
      | true, .exited _ => some (.ended raisesLater, x.worker)
      | true, _ => none
      | false, _ => some (.ended raisesLater, x.worker)
  | _, _ => none

/-! ## The worker -/

/-- `_extract_weights`: every slice read as the bytes it covers. -/
def extractWeights (buffer : Bytes) (payload : List NamedTensor) : List Weight :=
  payload.map fun item =>
    ⟨item.name, item.dtype, item.shape,
      buffer.read item.offset (item.dtype.itemsize * numel item.shape)⟩

/-- `socket.send(b"")`, or `socket.send_string(msg)` when the step raised. -/
def Worker.reply (w : Worker) (raised : Bool) : Worker :=
  { w with replied := w.replied ++ [if raised then .error else .ok] }

/-- The message the worker reads next, if it is there. -/
def RankState.nextMessage (x : RankState) : Option Message := x.server.sent[x.worker.taken]?

/-- Where `recv_pyobj` in the loop leads. -/
def payloadTarget (released : Bool) : Message → WorkerPc
  | .none => if released then .finish else .release
  | .metadata payload => if released then .exited .unexpectedPayload else .run payload
  | .exception => if released then .exited .unexpectedPayload else .exited .forced
  | .handle => .exited .unexpectedPayload

/-- One step of a worker. -/
def workerStep (u : Update) (rank : Rank) (x : RankState) : Option Worker :=
  let w := x.worker
  match w.pc with
  | .absent => none
  | .recvHandle => x.nextMessage.map fun _ => { w with pc := .attach, taken := w.taken + 1 }
  | .attach =>
      if u.env.attachRaises rank then
        some { w.reply true with pc := .recvAck }
      else
        some { w.reply false with pc := .recvPayload false }
  | .recvAck =>
      x.nextMessage.map fun _ => { w with pc := .exited .attachError, taken := w.taken + 1 }
  | .recvPayload released =>
      x.nextMessage.map fun message =>
        { w with pc := payloadTarget released message, taken := w.taken + 1 }
  | .run payload =>
      some { w.reply (u.env.runRaises rank w.handed.length) with
        pc := .recvPayload false
        handed := w.handed ++ [extractWeights x.device.buffer payload] }
  | .release =>
      if u.env.releaseRaises rank then some { w with pc := .exited .releaseError }
      else some { w.reply false with pc := .recvPayload true }
  | .finish =>
      if u.env.postHookRaises rank then some { w with pc := .exited .postHookError }
      else some { w.reply false with pc := .exited .returned }
  | .exited _ => none

/-! ## The machine -/

/-- Replace the state of one rank. -/
def setRank (s : State) (rank : Rank) (x : RankState) : State := Function.update s rank x

@[simp] theorem setRank_self (s : State) (rank : Rank) (x : RankState) :
    setRank s rank x rank = x := Function.update_self ..

theorem setRank_other {s : State} {rank q : Rank} {x : RankState} (h : q ≠ rank) :
    setRank s rank x q = s q := Function.update_of_ne h ..

/-- The rank an agent belongs to. -/
def Agent.rank : Agent → Rank
  | .server rank | .stream rank | .request rank | .worker rank => rank

/-- What an agent makes of its own rank. -/
def agentStep (u : Update) (s : State) : Agent → Option RankState
  | .server rank =>
      (u.serverStep rank (s rank)).map fun (server, device) => { s rank with server, device }
  | .stream rank =>
      (u.streamStep s rank).map fun device => { s rank with device }
  | .request rank =>
      (u.requestStep rank (s rank)).map fun (request, worker) => { s rank with request, worker }
  | .worker rank =>
      (u.workerStep rank (s rank)).map fun worker => { s rank with worker }

/-- The update as a machine: only participating ranks act. -/
def machine (u : Update) : Machine State Agent where
  init := u.initial
  step s agent :=
    if agent.rank ∈ u.ranks then (u.agentStep s agent).map (setRank s agent.rank) else none

/-- A state that some interleaving of the agents leads to. -/
abbrev Reachable (u : Update) (s : State) : Prop := u.machine.Reachable s

/-- A state in which every agent has ended or waits for ever. -/
abbrev Final (u : Update) (s : State) : Prop := u.machine.Final s

/-- Every step is the step of one agent of one participating rank. -/
theorem step_cases {u : Update} {s t : State} {agent : Agent}
    (h : u.machine.step s agent = some t) :
    agent.rank ∈ u.ranks ∧
      ∃ x, u.agentStep s agent = some x ∧ t = setRank s agent.rank x := by
  simp only [machine, Option.ite_none_right_eq_some, Option.map_eq_some_iff] at h
  obtain ⟨hmem, x, hx, rfl⟩ := h
  exact ⟨hmem, x, hx, rfl⟩

/-! ## The smallest update -/

/-- The environment in which nothing raises. -/
def Environment.faultless : Environment where
  copyToBuffer _ _ := some fun _ => 0
  reqFunc _ := .starts false false
  attachRaises _ := false
  runRaises _ _ := false
  releaseRaises _ := false
  postHookRaises _ := false
  uninitialised _ _ := 0

/-- Rank 0 sends itself and its peers one bucket with one tensor. -/
def singleBucket (peers : List Rank) (env : Environment) : Update where
  ranks := 0 :: peers
  bucketSize := 4
  disableH2dBuffer := true
  buckets := [(0, 0, ⟨4, [⟨0, 0, 4⟩], [⟨"weight", .float32, [1], 4⟩]⟩)]
  env := env
  buckets_ne := by simp
  receiver_mem := by simp
  size_le := by simp

end Update

end CheckpointEngine
