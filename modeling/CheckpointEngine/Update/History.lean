/-
  `Update.History`: what a parameter server has done when it is at a control point.

  The control point determines the messages sent, the number of replies read and
  the collectives issued, for every pattern of failures.  The functions below give
  them in closed form; that every reachable state agrees with them is the subject
  of `Update.Invariant`.
-/
import CheckpointEngine.Update.System

set_option autoImplicit false

namespace CheckpointEngine.Update

open CheckpointEngine.Foundation

/-! ## Failures of the workers -/

/-- Whether the worker's `k`-th reply is an error: reply `0` answers the handle,
reply `g + 1` the metadata of bucket `g`. -/
def replyRaises (u : Update) (rank : Rank) : Nat → Bool
  | 0 => u.env.attachRaises rank
  | k + 1 => decide (k < u.rounds) && u.env.runRaises rank k

/-- The worker's `k`-th reply. -/
def reply (u : Update) (rank : Rank) (k : Nat) : Reply :=
  if u.replyRaises rank k then .error else .ok

/-- What the rank contributes to the `all_reduce` of turn `g`. -/
def code (u : Update) (rank : Rank) (g : Nat) : Nat := (u.replyRaises rank g).toNat

/-- What the `all_reduce` of turn `g` computes. -/
def total (u : Update) (g : Nat) : Nat := (u.ranks.map fun q => u.code q g).sum

/-- Turn `g` finds no error. -/
def Clean (u : Update) (g : Nat) : Prop := ∀ q ∈ u.ranks, u.replyRaises q g = false

instance (u : Update) (g : Nat) : Decidable (u.Clean g) :=
  inferInstanceAs (Decidable (∀ q ∈ u.ranks, _))

theorem total_eq_zero {u : Update} {g : Nat} : u.total g = 0 ↔ u.Clean g := by
  simp [total, Clean, code, List.sum_eq_zero_iff_forall_eq_nat]

theorem replyRaises_zero (u : Update) (rank : Rank) :
    u.replyRaises rank 0 = u.env.attachRaises rank := rfl

theorem replyRaises_succ {u : Update} {k : Nat} (rank : Rank) (h : k < u.rounds) :
    u.replyRaises rank (k + 1) = u.env.runRaises rank k := by
  simp [replyRaises, h]

theorem replyRaises_late {u : Update} {k : Nat} (rank : Rank) (h : u.rounds < k) :
    u.replyRaises rank k = false := by
  cases k with
  | zero => omega
  | succ k =>
      have : ¬ k < u.rounds := by omega
      simp [replyRaises, this]

/-! ## Positions -/

/-- The turns that are known to be without an error. -/
def Exit.cleared (u : Update) : Exit → Nat
  | .returned => u.rounds
  | .remoteError g | .localError g => g

/-- The messages sent, the exception apart. -/
def Exit.sends (u : Update) : Exit → Nat
  | .returned => u.rounds + 3
  | .remoteError g | .localError g => g + 1

/-- The replies read. -/
def Exit.receives (u : Update) : Exit → Nat
  | .returned => u.rounds + 3
  | .remoteError g => g + 1
  | .localError g => g

/-- The collectives issued before the barrier. -/
def Exit.issues (u : Update) : Exit → Nat
  | .returned => 2 * u.rounds
  | .remoteError g => 2 * g + 2
  | .localError g => 2 * g

/-- The last message of an update that failed on some worker. -/
def Exit.farewell : Exit → List Message
  | .remoteError _ => [.exception]
  | _ => []

/-- How the server came to the `finally` block, when it is there. -/
def Pc.exit? : Pc → Option Exit
  | .join exit | .barrier exit | .awaitBarrier exit | .left exit => some exit
  | _ => none

/-- The turns that are known to be without an error. -/
def Pc.cleared (u : Update) : Pc → Nat
  | .sendHandle => 0
  | .stage g | .fill g | .broadcast g | .recvReply g | .allReduce g | .synchronize g => g
  | .recvLast | .sendRelease | .recvRelease | .sendFinish | .recvFinish => u.rounds
  | .join exit | .barrier exit | .awaitBarrier exit | .left exit => exit.cleared u

/-- The messages sent, the exception apart. -/
def Pc.sends (u : Update) : Pc → Nat
  | .sendHandle => 0
  | .stage g | .fill g | .broadcast g | .recvReply g | .allReduce g | .synchronize g => g + 1
  | .recvLast | .sendRelease => u.rounds + 1
  | .recvRelease | .sendFinish => u.rounds + 2
  | .recvFinish => u.rounds + 3
  | .join exit | .barrier exit | .awaitBarrier exit | .left exit => exit.sends u

/-- The replies read. -/
def Pc.receives (u : Update) : Pc → Nat
  | .sendHandle => 0
  | .stage g | .fill g | .broadcast g | .recvReply g => g
  | .allReduce g | .synchronize g => g + 1
  | .recvLast => u.rounds
  | .sendRelease | .recvRelease => u.rounds + 1
  | .sendFinish | .recvFinish => u.rounds + 2
  | .join exit | .barrier exit | .awaitBarrier exit | .left exit => exit.receives u

/-- The collectives issued, the barrier apart. -/
def Pc.issues (u : Update) : Pc → Nat
  | .sendHandle => 0
  | .stage g | .fill g | .broadcast g => 2 * g
  | .recvReply g | .allReduce g => 2 * g + 1
  | .synchronize g => 2 * g + 2
  | .recvLast | .sendRelease | .recvRelease | .sendFinish | .recvFinish => 2 * u.rounds
  | .join exit | .barrier exit | .awaitBarrier exit | .left exit => exit.issues u

/-- The collectives that are known to be executed. -/
def Pc.settled (u : Update) : Pc → Nat
  | .sendHandle => 0
  | .stage g | .fill g | .broadcast g | .recvReply g | .allReduce g | .synchronize g => 2 * g
  | .recvLast | .sendRelease | .recvRelease | .sendFinish | .recvFinish => 2 * u.rounds
  | .join exit | .barrier exit | .awaitBarrier exit => exit.issues u
  | .left exit => exit.issues u + 1

/-- The last message of an update that failed on some worker, once it is sent. -/
def Pc.farewell (pc : Pc) : List Message := (pc.exit?.map Exit.farewell).getD []

/-- The barrier, once it is issued. -/
def Pc.barriers : Pc → List Collective
  | .awaitBarrier _ | .left _ => [.barrier]
  | _ => []

/-! ## Transcripts -/

/-- Message `k` of an update without failures. -/
def message (u : Update) (k : Nat) : Message :=
  match k with
  | 0 => .handle
  | g + 1 => if g < u.rounds then .metadata (u.metadata g) else .none

/-- Collective `k` of a rank. -/
def collective (u : Update) (rank : Rank) (k : Nat) : Collective :=
  if k % 2 = 0 then .broadcast (u.turn (k / 2)).receiver (u.view (k / 2))
  else .allReduce (u.code rank (k / 2))

/-- The first `n` calls on a socket that sends and receives in turn. -/
def alternating (n : Nat) : List SocketCall :=
  (List.range n).map fun k => if k % 2 = 0 then .send else .recv

/-- The messages a server has sent. -/
def sentAt (u : Update) (pc : Pc) : List Message :=
  (List.range (pc.sends u)).map u.message ++ pc.farewell

/-- The collectives a server has issued. -/
def issuedAt (u : Update) (rank : Rank) (pc : Pc) : List Collective :=
  (List.range (pc.issues u)).map (u.collective rank) ++ pc.barriers

/-- The calls a server has made on its socket. -/
def socketAt (u : Update) (pc : Pc) : List SocketCall :=
  alternating (pc.sends u + pc.farewell.length + pc.receives u)

theorem alternating_succ (n : Nat) :
    alternating (n + 1) = alternating n ++ [if n % 2 = 0 then .send else .recv] := by
  simp [alternating, List.range_succ]

/-- As many sends as receives: the next call is a send. -/
theorem alternating_send (n : Nat) : alternating (n + n) ++ [.send] = alternating (n + 1 + n) := by
  have heven : (n + n) % 2 = 0 := by omega
  rw [show n + 1 + n = n + n + 1 by omega, alternating_succ, if_pos heven]

/-- One send more than receives: the next call is a receive. -/
theorem alternating_recv (n : Nat) :
    alternating (n + 1 + n) ++ [.recv] = alternating (n + 1 + (n + 1)) := by
  have hodd : ¬ (n + 1 + n) % 2 = 0 := by omega
  rw [show n + 1 + (n + 1) = n + 1 + n + 1 by omega, alternating_succ, if_neg hodd]

/-- No call is made twice in a row. -/
theorem alternating_chain (n : Nat) : (alternating n).IsChain (· ≠ ·) := by
  apply List.isChain_iff_getElem.mpr
  intro i hi
  simp only [alternating, List.getElem_map, List.getElem_range]
  rcases Nat.mod_two_eq_zero_or_one i with h | h
  · have : (i + 1) % 2 = 1 := by omega
    simp [h, this]
  · have : (i + 1) % 2 = 0 := by omega
    simp [h, this]

@[simp] theorem collective_even (u : Update) (rank : Rank) (g : Nat) :
    u.collective rank (2 * g) = .broadcast (u.turn g).receiver (u.view g) := by
  simp [collective]

@[simp] theorem collective_odd (u : Update) (rank : Rank) (g : Nat) :
    u.collective rank (2 * g + 1) = .allReduce (u.code rank g) := by
  have hodd : (2 * g + 1) % 2 = 1 := by omega
  have hdiv : (2 * g + 1) / 2 = g := by omega
  simp [collective, hodd, hdiv]

/-- The kind of a collective does not depend on the rank. -/
theorem collective_kind (u : Update) (rank q : Rank) (k : Nat) :
    (u.collective rank k).kind = (u.collective q k).kind := by
  simp only [collective]
  split <;> rfl

theorem message_metadata {u : Update} {g : Nat} (h : g < u.rounds) :
    u.message (g + 1) = .metadata (u.metadata g) := by
  simp [message, h]

theorem message_none {u : Update} {g : Nat} (h : u.rounds ≤ g) :
    u.message (g + 1) = .none := by
  have : ¬ g < u.rounds := by omega
  simp [message, this]

theorem message_ne_exception (u : Update) (k : Nat) : u.message k ≠ .exception := by
  cases k with
  | zero => simp [message]
  | succ g =>
      simp only [message]
      split <;> simp

theorem length_sentAt (u : Update) (pc : Pc) :
    (u.sentAt pc).length = pc.sends u + pc.farewell.length := by
  simp [sentAt]

theorem length_issuedAt (u : Update) (rank : Rank) (pc : Pc) :
    (u.issuedAt rank pc).length = pc.issues u + pc.barriers.length := by
  simp [issuedAt]

theorem sentAt_getElem? {u : Update} {pc : Pc} {k : Nat} (h : k < pc.sends u) :
    (u.sentAt pc)[k]? = some (u.message k) := by
  rw [sentAt, List.getElem?_append_left (by simpa using h)]
  simp [h]

theorem issuedAt_getElem? {u : Update} {rank : Rank} {pc : Pc} {k : Nat}
    (h : k < pc.issues u) : (u.issuedAt rank pc)[k]? = some (u.collective rank k) := by
  rw [issuedAt, List.getElem?_append_left (by simpa using h)]
  simp [h]

/-! ## Entering a turn -/

/-- Behind the last turn the control point is `recvLast`, else the start of the
turn: a quantity known at both is known where the loop goes on. -/
theorem enter_at {β : Type} {u : Update} (f : Pc → β) (v : Nat → β) {g : Nat}
    (h : g ≤ u.rounds) (hstage : f (.stage g) = v g) (hlast : f .recvLast = v u.rounds) :
    f (u.enter g) = v g := by
  simp only [enter]
  split
  · exact hstage
  · obtain rfl : g = u.rounds := by omega
    exact hlast

theorem cleared_enter {u : Update} {g : Nat} (h : g ≤ u.rounds) :
    (u.enter g).cleared u = g := enter_at (Pc.cleared u) id h rfl rfl

theorem sends_enter {u : Update} {g : Nat} (h : g ≤ u.rounds) :
    (u.enter g).sends u = g + 1 := enter_at (Pc.sends u) (· + 1) h rfl rfl

theorem receives_enter {u : Update} {g : Nat} (h : g ≤ u.rounds) :
    (u.enter g).receives u = g := enter_at (Pc.receives u) id h rfl rfl

theorem issues_enter {u : Update} {g : Nat} (h : g ≤ u.rounds) :
    (u.enter g).issues u = 2 * g := enter_at (Pc.issues u) (2 * ·) h rfl rfl

theorem settled_enter {u : Update} {g : Nat} (h : g ≤ u.rounds) :
    (u.enter g).settled u = 2 * g := enter_at (Pc.settled u) (2 * ·) h rfl rfl

@[simp] theorem farewell_enter (u : Update) (g : Nat) : (u.enter g).farewell = [] := by
  simp only [enter]
  split <;> rfl

@[simp] theorem barriers_enter (u : Update) (g : Nat) : (u.enter g).barriers = [] := by
  simp only [enter]
  split <;> rfl

end CheckpointEngine.Update
