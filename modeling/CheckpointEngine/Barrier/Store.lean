/-
  `Barrier.Store`: the barrier at the end of every update, `store_based_barrier` and
  `_delete_stale_store_barrier_keys` in `checkpoint_engine/ps.py`.

  All ranks work on one TCP store, one operation at a time.  What torch does in
  `_store_based_barrier` is taken as documented: add 1 to the group's key, read it
  with an add of 0, set the group's `last_worker` key when it shows the world size,
  and wait for that key or raise on timeout.  The name of a group has the number of
  the rank's own call in it, so keys are told apart by that generation.

  A rank makes its updates one after the other.  An update that raises before its
  barrier leaves the rank's counter alone; `reaches` says which ones get there.
-/
import CheckpointEngine.DataTypes
import CheckpointEngine.Foundation.Machine
import CheckpointEngine.Foundation.Numbering

set_option autoImplicit false

namespace CheckpointEngine.Barrier

open CheckpointEngine.Foundation

/-! ## Keys -/

/-- A key of the barrier of one generation. -/
inductive Key where
  /-- counts the ranks that have arrived -/
  | arrived (generation : Nat)
  /-- the `last_worker` key, which releases them -/
  | lastWorker (generation : Nat)
  deriving DecidableEq, Repr

/-- The generation a key belongs to. -/
def Key.generation : Key → Nat
  | .arrived generation | .lastWorker generation => generation

/-- `group_name`. -/
def groupName (storeBarrierCounter : Nat) : String :=
  "parameter_server_barrier-" ++ toString storeBarrierCounter

/-- The key as the store sees it; `storePrefix` is `STORE_BASED_BARRIER_PREFIX`. -/
def Key.text (storePrefix : String) : Key → String
  | .arrived generation => storePrefix ++ ":" ++ groupName generation
  | .lastWorker generation => storePrefix ++ ":" ++ groupName generation ++ ":last_worker"

/-- The texts of different keys differ. -/
theorem Key.text_inj {storePrefix : String} {key key' : Key}
    (h : key.text storePrefix = key'.text storePrefix) : key = key' := by
  have hcross : ∀ generation generation' : Nat,
      Key.text storePrefix (.arrived generation) ≠
        Key.text storePrefix (.lastWorker generation') := by
    intro generation generation'
    have hletter : 'l' ∈ (":last_worker" : String).toList := by decide
    exact numbered_ne hletter rfl
  cases key with
  | arrived generation =>
      cases key' with
      | arrived generation' =>
          have hname := (String.append_right_inj _).mp h
          rw [toString_inj ((String.append_right_inj _).mp hname)]
      | lastWorker generation' => exact absurd h (hcross generation generation')
  | lastWorker generation =>
      cases key' with
      | arrived generation' => exact absurd h.symm (hcross generation' generation)
      | lastWorker generation' =>
          have hname := (String.append_right_inj _).mp ((String.append_left_inj _).mp h)
          rw [toString_inj ((String.append_right_inj _).mp hname)]

/-- The TCP store, as far as it holds keys of barriers. -/
abbrev Store := Key → Option Nat

/-- `store.add(key, amount)`: a missing key counts from 0. -/
def Store.add (store : Store) (key : Key) (amount : Nat) : Store :=
  Function.update store key (some ((store key).getD 0 + amount))

/-- `store.set(key, "1")`. -/
def Store.set (store : Store) (key : Key) : Store := Function.update store key (some 1)

/-- `store.delete_key(key)`. -/
def Store.deleteKey (store : Store) (key : Key) : Store := Function.update store key none

/-! ## One rank -/

/-- Where a rank is in its barrier. -/
inductive Pc where
  | outside
  /-- before `add(store_key, 1)` -/
  | arrive
  /-- before `add(store_key, 0)` -/
  | read
  /-- before `set(last_worker_key)` -/
  | announce
  /-- in `wait([last_worker_key])` -/
  | wait
  /-- before this `delete_key` -/
  | delete (key : Key)
  deriving DecidableEq, Repr

/-- A rank's part of the state, with the updates whose barrier it has entered and
those it has returned from normally. -/
structure Server where
  /-- how many updates it has begun -/
  updates : Nat
  storeBarrierCounter : Nat
  storeBarrierTrash : List Nat
  pc : Pc
  entered : List Nat
  returned : List Nat
  deriving DecidableEq, Repr

/-- `__init__`. -/
def Server.fresh : Server := ⟨0, 0, [], .outside, [], []⟩

/-- The rank is between the beginning and the end of a barrier's wait. -/
def Server.InBarrier (server : Server) : Prop :=
  server.pc = .arrive ∨ server.pc = .read ∨ server.pc = .announce ∨ server.pc = .wait

/-- The next update: it raises early, or `store_based_barrier` is called. -/
def Server.begin (server : Server) (reaches : Bool) : Server :=
  let server := { server with updates := server.updates + 1 }
  if reaches then
    { server with
      storeBarrierCounter := server.storeBarrierCounter + 1
      pc := .arrive
      entered := server.entered ++ [server.updates - 1] }
  else server

/-- `_store_based_barrier` returns; `_delete_stale_store_barrier_keys` up to its first
`delete_key`. -/
def Server.finish (server : Server) (rank : Rank) : Server :=
  let server := { server with returned := server.returned ++ [server.updates - 1] }
  if rank ≠ 0 then
    { server with pc := .outside }
  else
    let trash := server.storeBarrierTrash ++ [server.storeBarrierCounter]
    if trash.length ≤ 2 then
      { server with storeBarrierTrash := trash, pc := .outside }
    else
      { server with storeBarrierTrash := trash.tail, pc := .delete (.arrived (trash.headD 0)) }

/-- What follows a `delete_key`: the group's other key, or the end of the barrier. -/
def Pc.afterDelete : Key → Pc
  | .arrived generation => .delete (.lastWorker generation)
  | .lastWorker _ => .outside

/-! ## All ranks -/

/-- All ranks, the store, and the keys deleted so far. -/
structure State where
  ranks : Rank → Server
  store : Store
  deleted : List Key

/-- The rank with its new part of the state. -/
def State.setRank (s : State) (rank : Rank) (server : Server) : State :=
  { s with ranks := Function.update s.ranks rank server }

inductive Move where
  /-- the rank's next operation -/
  | next (rank : Rank)
  /-- the rank's wait times out and the barrier raises -/
  | timeout (rank : Rank)
  deriving DecidableEq, Repr

/-- The rank's next operation on the store. -/
def State.next (s : State) (worldSize : Nat) (reaches : Nat → Rank → Bool) (rank : Rank) :
    Option State :=
  let server := s.ranks rank
  let generation := server.storeBarrierCounter
  match server.pc with
  | .outside => some (s.setRank rank (server.begin (reaches server.updates rank)))
  | .arrive =>
      some { s.setRank rank { server with pc := .read } with
        store := s.store.add (.arrived generation) 1 }
  | .read =>
      let store := s.store.add (.arrived generation) 0
      let pc := if store (.arrived generation) = some worldSize then .announce else .wait
      some { s.setRank rank { server with pc } with store }
  | .announce =>
      some { s.setRank rank { server with pc := .wait } with
        store := s.store.set (.lastWorker generation) }
  | .wait =>
      if (s.store (.lastWorker generation)).isSome then
        some (s.setRank rank (server.finish rank))
      else none
  | .delete key =>
      some { s.setRank rank { server with pc := .afterDelete key } with
        store := s.store.deleteKey key
        deleted := s.deleted ++ [key] }

/-- A step; the ranks are those below the world size. -/
def State.step (worldSize : Nat) (reaches : Nat → Rank → Bool) (s : State) :
    Move → Option State
  | .next rank => if rank < worldSize then s.next worldSize reaches rank else none
  | .timeout rank =>
      if rank < worldSize ∧ (s.ranks rank).pc = .wait then
        some (s.setRank rank { s.ranks rank with pc := .outside })
      else none

/-- The updates of all ranks from their construction on; `reaches u r` says whether rank
`r` gets to the barrier of update `u`. -/
def barriers (worldSize : Nat) (reaches : Nat → Rank → Bool) : Machine State Move where
  init := ⟨fun _ => .fresh, fun _ => none, []⟩
  step := State.step worldSize reaches

/-! ## What a step does -/

@[simp] theorem State.setRank_self (s : State) (rank : Rank) (server : Server) :
    (s.setRank rank server).ranks rank = server := Function.update_self _ _ _

theorem State.setRank_other {rank other : Rank} (h : other ≠ rank) (s : State)
    (server : Server) : (s.setRank rank server).ranks other = s.ranks other :=
  Function.update_of_ne h _ _

/-- What holds of the server that is set, and of the other ranks' servers, holds of all. -/
theorem State.setRank_forall {s : State} {rank : Rank} {server : Server}
    {P : Rank → Server → Prop} (hself : P rank server)
    (hrest : ∀ other, other ≠ rank → P other (s.ranks other)) (other : Rank) :
    P other ((s.setRank rank server).ranks other) := by
  by_cases heq : other = rank
  · subst heq
    rwa [State.setRank_self]
  · rw [State.setRank_other heq]
    exact hrest other heq

/-- The next operation of a rank on the state it finds. -/
inductive Change (worldSize : Nat) (reaches : Nat → Rank → Bool) (s : State) (rank : Rank) :
    State → Prop
  | skip (hpc : (s.ranks rank).pc = .outside)
      (hreaches : reaches (s.ranks rank).updates rank = false) :
      Change worldSize reaches s rank
        (s.setRank rank { s.ranks rank with updates := (s.ranks rank).updates + 1 })
  | enter (hpc : (s.ranks rank).pc = .outside)
      (hreaches : reaches (s.ranks rank).updates rank = true) :
      Change worldSize reaches s rank
        (s.setRank rank { s.ranks rank with
          updates := (s.ranks rank).updates + 1
          storeBarrierCounter := (s.ranks rank).storeBarrierCounter + 1
          pc := .arrive
          entered := (s.ranks rank).entered ++ [(s.ranks rank).updates] })
  | arrive (hpc : (s.ranks rank).pc = .arrive) :
      Change worldSize reaches s rank
        { s.setRank rank { s.ranks rank with pc := .read } with
          store := s.store.add (.arrived (s.ranks rank).storeBarrierCounter) 1 }
  | read (pc : Pc) (hpc : (s.ranks rank).pc = .read)
      (hnext : pc = .wait ∨ pc = .announce ∧
        s.store.add (.arrived (s.ranks rank).storeBarrierCounter) 0
          (.arrived (s.ranks rank).storeBarrierCounter) = some worldSize) :
      Change worldSize reaches s rank
        { s.setRank rank { s.ranks rank with pc } with
          store := s.store.add (.arrived (s.ranks rank).storeBarrierCounter) 0 }
  | announce (hpc : (s.ranks rank).pc = .announce) :
      Change worldSize reaches s rank
        { s.setRank rank { s.ranks rank with pc := .wait } with
          store := s.store.set (.lastWorker (s.ranks rank).storeBarrierCounter) }
  | finish (hpc : (s.ranks rank).pc = .wait)
      (hreleased : (s.store (.lastWorker (s.ranks rank).storeBarrierCounter)).isSome) :
      Change worldSize reaches s rank (s.setRank rank ((s.ranks rank).finish rank))
  | delete (key : Key) (hpc : (s.ranks rank).pc = .delete key) :
      Change worldSize reaches s rank
        { s.setRank rank { s.ranks rank with pc := .afterDelete key } with
          store := s.store.deleteKey key
          deleted := s.deleted ++ [key] }

theorem State.next_change {worldSize : Nat} {reaches : Nat → Rank → Bool} {s t : State}
    {rank : Rank} (h : s.next worldSize reaches rank = some t) :
    Change worldSize reaches s rank t := by
  unfold State.next at h
  simp only at h
  split at h
  case h_1 hpc =>
    obtain rfl := Option.some.inj h
    cases hreaches : reaches (s.ranks rank).updates rank with
    | false => exact .skip hpc hreaches
    | true => exact .enter hpc hreaches
  case h_2 hpc =>
    obtain rfl := Option.some.inj h
    exact .arrive hpc
  case h_3 hpc =>
    obtain rfl := Option.some.inj h
    refine .read _ hpc ?_
    split
    · next hworld => exact .inr ⟨rfl, hworld⟩
    · exact .inl rfl
  case h_4 hpc =>
    obtain rfl := Option.some.inj h
    exact .announce hpc
  case h_5 hpc =>
    rw [Option.ite_none_right_eq_some] at h
    obtain ⟨hreleased, h⟩ := h
    obtain rfl := Option.some.inj h
    exact .finish hpc hreleased
  case h_6 key hpc =>
    obtain rfl := Option.some.inj h
    exact .delete key hpc

/-- Every step is a change made by a rank of the world, or one of its timeouts. -/
theorem State.step_cases {worldSize : Nat} {reaches : Nat → Rank → Bool} {s t : State}
    {move : Move} (h : s.step worldSize reaches move = some t) :
    ∃ rank < worldSize,
      (move = .next rank ∧ Change worldSize reaches s rank t) ∨
        (move = .timeout rank ∧ (s.ranks rank).pc = .wait ∧
          t = s.setRank rank { s.ranks rank with pc := .outside }) := by
  cases move with
  | next rank =>
      rw [State.step, Option.ite_none_right_eq_some] at h
      exact ⟨rank, h.1, .inl ⟨rfl, State.next_change h.2⟩⟩
  | timeout rank =>
      rw [State.step, Option.ite_none_right_eq_some] at h
      obtain ⟨⟨hrank, hpc⟩, h⟩ := h
      exact ⟨rank, hrank, .inr ⟨rfl, hpc, (Option.some.inj h).symm⟩⟩

theorem Server.finish_other {rank : Rank} (h : rank ≠ 0) (server : Server) :
    server.finish rank =
      { server with returned := server.returned ++ [server.updates - 1], pc := .outside } :=
  if_pos h

/-- Rank 0 keeps up to two generations in its trash; of three it takes the first out. -/
theorem Server.finish_zero (server : Server) :
    (server.storeBarrierTrash.length < 2 ∧
      server.finish 0 =
        { server with
          returned := server.returned ++ [server.updates - 1]
          storeBarrierTrash := server.storeBarrierTrash ++ [server.storeBarrierCounter]
          pc := .outside }) ∨
      ∃ stale next rest, server.storeBarrierTrash = stale :: next :: rest ∧
        server.finish 0 =
          { server with
            returned := server.returned ++ [server.updates - 1]
            storeBarrierTrash := next :: rest ++ [server.storeBarrierCounter]
            pc := .delete (.arrived stale) } := by
  unfold Server.finish
  simp only [ne_eq, not_true_eq_false, if_false, List.length_append, List.length_singleton]
  split
  · next hshort => exact .inl ⟨by omega, rfl⟩
  · next hlong =>
      match htrash : server.storeBarrierTrash with
      | [] => simp [htrash] at hlong
      | [_] => simp [htrash] at hlong
      | stale :: next :: rest => exact .inr ⟨stale, next, rest, rfl, by simp⟩

/-! ## Arrivals -/

/-- How many generations a rank has added itself to: all it has entered, but for one it
has yet to add to. -/
def Server.arrivals (server : Server) : Nat :=
  if server.pc = .arrive then server.storeBarrierCounter - 1 else server.storeBarrierCounter

/-- How many ranks have added themselves to a generation. -/
def State.arrivedCount (s : State) (worldSize generation : Nat) : Nat :=
  (List.range worldSize).countP fun rank => generation ≤ (s.ranks rank).arrivals

/-- Every rank has added itself to the generation. -/
def State.AllArrived (s : State) (worldSize generation : Nat) : Prop :=
  ∀ rank < worldSize, generation ≤ (s.ranks rank).arrivals

theorem allArrived_of_count {s : State} {worldSize generation : Nat}
    (h : s.arrivedCount worldSize generation = worldSize) : s.AllArrived worldSize generation := by
  have hall : (List.range worldSize).countP
      (fun rank => generation ≤ (s.ranks rank).arrivals) = (List.range worldSize).length := by
    rw [List.length_range]
    exact h
  intro rank hrank
  have := List.countP_eq_length.mp hall rank (List.mem_range.mpr hrank)
  exact of_decide_eq_true this

theorem arrivals_le (server : Server) : server.arrivals ≤ server.storeBarrierCounter := by
  unfold Server.arrivals
  split <;> omega

end CheckpointEngine.Barrier
