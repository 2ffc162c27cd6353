/-
  `Worker.StateMachine`: what the worker does with any sequence of messages.
-/
import CheckpointEngine.Worker.Turns

set_option autoImplicit false

namespace CheckpointEngine.Worker

open CheckpointEngine.Foundation
open CheckpointEngine.Foundation.Command

/-! ## What is read off the events -/

/-- The messages received. -/
def consumed (events : List Event) : List Payload :=
  events.filterMap fun
    | .recv payload => some payload
    | _ => none

/-- The calls of `run`. -/
def runs (events : List Event) : List (List WeightView) :=
  events.filterMap fun
    | .run weights => some weights
    | _ => none

/-- Messages received and replies sent. -/
def exchange (events : List Event) : List Event :=
  events.filter fun
    | .recv _ | .reply _ => true
    | _ => false

/-- Each message is followed by its reply. -/
def Answered (events : List Event) : Prop :=
  ∃ turns : List (Payload × Reply),
    events = turns.flatMap fun (payload, reply) => [.recv payload, .reply reply]

/-- The shared buffer is used. -/
def Event.Uses : Event → Prop
  | .extract | .run _ => True
  | _ => False

/-- The items of a metadata list. -/
def Payload.items? : Payload → Option (List MetadataItem)
  | .metadata items => some items
  | .exception _ | .none | .other => Option.none

/-- The metadata lists in front of the first message of another kind. -/
def lists (payloads : List Payload) : List (List MetadataItem) :=
  (payloads.takeWhile fun payload => payload.items?.isSome).filterMap Payload.items?

/-- The weights of a metadata list, if its slices can be taken. -/
def weights? (nbytes : Nat) (items : List MetadataItem) : Option (List WeightView) :=
  match extractWeights nbytes items with
  | .ok weights => some weights
  | .error _ => none

/-- What the events of the loop say, for these messages and a buffer of `nbytes` bytes. -/
structure Orderly (nbytes : Nat) (turns : List Turn) (events : List Event) (raised : Prop) :
    Prop where
  /-- the messages are consumed in order -/
  consumed_le : consumed events <+: turns.map Turn.payload
  /-- `run` is called for the metadata lists that come first, in order and once each -/
  runs_eq : runs events = (lists (consumed events)).filterMap (weights? nbytes)
  /-- none of them is left out, as long as messages and errors get through -/
  runs_all : (∀ turn ∈ turns, turn.raises .recv = none ∧ turn.raises .sendString = none) →
    runs events = (lists (turns.map Turn.payload)).filterMap (weights? nbytes)
  /-- the buffer is not used behind a `detach` -/
  uses_before_detach : events.Pairwise fun earlier later => earlier = .detach → ¬ later.Uses
  postHook_once : events.count .postHook ≤ 1
  /-- the post hook comes behind the release and a second None -/
  postHook_behind : .postHook ∈ events →
    [.recv .none, .detach, .recv .none, .postHook].Sublist events
  /-- every message has its reply, except for one that makes the function raise -/
  answered : Answered (exchange events) ∨
    raised ∧ ∃ front payload, exchange events = front ++ [.recv payload] ∧ Answered front

section Orderly

variable {nbytes : Nat} {turns : List Turn} {turn : Turn} {events : List Event} {raised : Prop}

theorem consumed_append (es es' : List Event) :
    consumed (es ++ es') = consumed es ++ consumed es' := List.filterMap_append

theorem runs_append (es es' : List Event) : runs (es ++ es') = runs es ++ runs es' :=
  List.filterMap_append

theorem exchange_append (es es' : List Event) :
    exchange (es ++ es') = exchange es ++ exchange es' := List.filter_append _ _

theorem Answered.cons {payload : Payload} {reply : Reply} (h : Answered events) :
    Answered (.recv payload :: .reply reply :: events) := by
  obtain ⟨turns, rfl⟩ := h
  exact ⟨(payload, reply) :: turns, rfl⟩

theorem lists_cons (items : List MetadataItem) (payloads : List Payload) :
    lists (.metadata items :: payloads) = items :: lists payloads := rfl

theorem consumed_updateEvents (items : List MetadataItem) :
    consumed (updateEvents nbytes items) = [.metadata items] := by
  unfold updateEvents runEvents
  cases extractWeights nbytes items <;> rfl

theorem exchange_updateEvents (items : List MetadataItem) :
    exchange (updateEvents nbytes items) = [.recv (.metadata items)] := by
  unfold updateEvents runEvents
  cases extractWeights nbytes items <;> rfl

theorem runs_updateEvents (items : List MetadataItem) :
    runs (updateEvents nbytes items) = [items].filterMap (weights? nbytes) := by
  unfold updateEvents runEvents
  cases hweights : extractWeights nbytes items <;> simp [runs, weights?, hweights]

theorem ne_of_mem_updateEvents {items : List MetadataItem} {event : Event}
    (h : event ∈ updateEvents nbytes items) : event ≠ .detach ∧ event ≠ .postHook := by
  unfold updateEvents runEvents at h
  cases hweights : extractWeights nbytes items <;> rw [hweights] at h <;> aesop

/-- A metadata list in front of what is orderly. -/
theorem Orderly.update {items : List MetadataItem} {reply : Reply}
    (h : Orderly nbytes turns events raised) (hpayload : turn.payload = .metadata items) :
    Orderly nbytes (turn :: turns) (updateEvents nbytes items ++ .reply reply :: events)
      raised := by
  constructor
  · rw [consumed_append, consumed_updateEvents, List.map_cons, hpayload]
    exact (List.prefix_cons_inj _).mpr h.consumed_le
  · rw [runs_append, consumed_append, consumed_updateEvents, runs_updateEvents]
    change _ ++ runs events = (lists (.metadata items :: consumed events)).filterMap _
    rw [h.runs_eq, ← List.filterMap_append]
    rfl
  · intro hraises
    have hrest := h.runs_all fun other hother => hraises other (List.mem_cons_of_mem _ hother)
    rw [runs_append, runs_updateEvents, List.map_cons, hpayload, lists_cons]
    change _ ++ runs events = _
    rw [hrest, ← List.filterMap_append]
    rfl
  · rw [List.pairwise_append, List.pairwise_cons]
    refine ⟨?_, ⟨fun _ _ hdetach => (by cases hdetach), h.uses_before_detach⟩, ?_⟩
    · apply List.pairwise_of_forall_mem_list
      intro event hevent _ _ hdetach
      exact absurd hdetach (ne_of_mem_updateEvents hevent).1
    · intro event hevent _ _ hdetach
      exact absurd hdetach (ne_of_mem_updateEvents hevent).1
  · rw [List.count_append,
      List.count_eq_zero_of_not_mem fun hmem => (ne_of_mem_updateEvents hmem).2 rfl, Nat.zero_add]
    simpa using h.postHook_once
  · intro hmem
    rcases List.mem_append.mp hmem with hmem | hmem
    · exact absurd rfl (ne_of_mem_updateEvents hmem).2
    · have hmem : .postHook ∈ events := by simpa using hmem
      exact ((h.postHook_behind hmem).cons _).trans (List.sublist_append_right _ _)
  · rw [exchange_append, exchange_updateEvents]
    rcases h.answered with hanswered | ⟨hraised, front, payload, heq, hfront⟩
    · exact .inl hanswered.cons
    · refine .inr ⟨hraised, .recv (.metadata items) :: .reply reply :: front, payload, ?_,
        hfront.cons⟩
      change .recv (.metadata items) :: .reply reply :: exchange events = _
      rw [heq]
      rfl

/-- A metadata list whose error does not get through. -/
theorem Orderly.unanswered {items : List MetadataItem} (hpayload : turn.payload = .metadata items)
    (hsend : turn.raises .sendString ≠ none) (hraised : raised) :
    Orderly nbytes (turn :: turns) (updateEvents nbytes items) raised := by
  constructor
  · rw [consumed_updateEvents, List.map_cons, hpayload]
    exact (List.prefix_cons_inj _).mpr List.nil_prefix
  · rw [consumed_updateEvents, runs_updateEvents]
    rfl
  · exact fun hraises => absurd (hraises turn List.mem_cons_self).2 hsend
  · apply List.pairwise_of_forall_mem_list
    intro event hevent _ _ hdetach
    exact absurd hdetach (ne_of_mem_updateEvents hevent).1
  · rw [List.count_eq_zero_of_not_mem fun hmem => (ne_of_mem_updateEvents hmem).2 rfl]
    exact Nat.zero_le _
  · exact fun hmem => absurd rfl (ne_of_mem_updateEvents hmem).2
  · exact .inr ⟨hraised, [], _, exchange_updateEvents items, [], rfl⟩

/-- Nothing has been done: there is no message, or the first does not get through. -/
theorem Orderly.nothing
    (h : ∀ first rest, turns = first :: rest → first.raises .recv ≠ none) :
    Orderly nbytes turns [] raised where
  consumed_le := List.nil_prefix
  runs_eq := rfl
  runs_all hraises := by
    cases turns with
    | nil => rfl
    | cons first rest => exact absurd (hraises first List.mem_cons_self).1 (h first rest rfl)
  uses_before_detach := .nil
  postHook_once := Nat.zero_le _
  postHook_behind hmem := absurd hmem List.not_mem_nil
  answered := .inl ⟨[], rfl⟩

/-- A message of another kind comes first, so that `run` is not called. -/
theorem Orderly.quiet (hpayload : turn.payload.items? = none)
    (hquiet : ∀ event ∈ events, ¬ event.Uses)
    (hconsumed : consumed events <+: (turn :: turns).map Turn.payload)
    (honce : events.count .postHook ≤ 1)
    (hbehind : .postHook ∈ events →
      [.recv .none, .detach, .recv .none, .postHook].Sublist events)
    (hanswered : Answered (exchange events) ∨
      raised ∧ ∃ front payload, exchange events = front ++ [.recv payload] ∧ Answered front) :
    Orderly nbytes (turn :: turns) events raised := by
  have hruns : runs events = [] := by
    apply List.filterMap_eq_nil_iff.mpr
    intro event hevent
    have := hquiet event hevent
    cases event <;> simp_all [Event.Uses]
  have hlists : ∀ payloads, lists (turn.payload :: payloads) = [] := by
    intro payloads
    simp [lists, hpayload]
  refine ⟨hconsumed, ?_, ?_, ?_, honce, hbehind, hanswered⟩
  · rw [hruns]
    cases hc : consumed events with
    | nil => rfl
    | cons payload rest =>
        rw [hc, List.map_cons, List.cons_prefix_cons] at hconsumed
        rw [hconsumed.1, hlists]
        rfl
  · intro _
    rw [hruns, List.map_cons, hlists]
    rfl
  · apply List.pairwise_of_forall_mem_list
    exact fun _ _ later hlater _ => hquiet later hlater

theorem Orderly.mono {raised' : Prop} (h : Orderly nbytes turns events raised)
    (himp : raised → raised') : Orderly nbytes turns events raised' :=
  { h with answered := h.answered.imp_right fun hraised => ⟨himp hraised.1, hraised.2⟩ }

/-- The worker's clean-up does not disturb the order. -/
theorem Orderly.cleanUp (h : Orderly nbytes turns events raised) :
    Orderly nbytes turns (events ++ [.closeSocket, .detach]) raised := by
  have hconsumed : consumed (events ++ [.closeSocket, .detach]) = consumed events := by
    rw [consumed_append]
    exact List.append_nil _
  have hruns : runs (events ++ [.closeSocket, .detach]) = runs events := by
    rw [runs_append]
    exact List.append_nil _
  have hexchange : exchange (events ++ [.closeSocket, .detach]) = exchange events := by
    rw [exchange_append]
    exact List.append_nil _
  constructor
  · exact hconsumed ▸ h.consumed_le
  · rw [hruns, hconsumed, h.runs_eq]
  · exact fun hraises => hruns ▸ h.runs_all hraises
  · rw [List.pairwise_append]
    refine ⟨h.uses_before_detach, by simp [Event.Uses], fun _ _ later hlater _ => ?_⟩
    rcases List.mem_pair.mp hlater with rfl | rfl <;> exact id
  · rw [List.count_append]
    exact h.postHook_once
  · intro hmem
    have hmem : .postHook ∈ events := by simpa using hmem
    exact (h.postHook_behind hmem).trans (List.sublist_append_left _ _)
  · exact hexchange ▸ h.answered

end Orderly

/-! ## The loop -/

section Loop

variable {answers : Answers} {nbytes : Nat} {turns : List Turn} {turn : Turn} {s : Session}

/-- What can be done behind the release. -/
def Finished (answers : Answers) (turns : List Turn) (events : List Event) (raised : Prop) : Prop :=
  events = [] ∨ ∃ turn rest, turns = turn :: rest ∧
    (raised ∧ events = [.recv turn.payload] ∨ turn.payload = .none ∧
      (raised ∧ events = finishEvents answers ∨ events = finishEvents answers ++ [.reply .ok]))

theorem wp_serve_released (hreleased : s.released = true) :
    wp (serve answers turns)
      (fun _ t => ∃ es, t = s.doing es ∧ Finished answers turns es False)
      (fun _ t => ∃ es, t = s.doing es ∧ Finished answers turns es True) s := by
  have hnothing : ∀ raised, ∃ es, s = s.doing es ∧ Finished answers turns es raised :=
    fun _ => ⟨[], by simp [Session.doing], .inl rfl⟩
  cases turns with
  | nil => exact hnothing False
  | cons turn rest =>
      rw [serve, wp_bind]
      apply wp_mono (wp_finishTurn hreleased)
      · rintro again t ⟨rfl, hpayload, rfl⟩
        exact ⟨_, rfl, .inr ⟨turn, rest, rfl, .inr ⟨hpayload, .inr rfl⟩⟩⟩
      · rintro _ t (rfl | rfl | ⟨hpayload, rfl⟩)
        · exact hnothing True
        · exact ⟨_, rfl, .inr ⟨turn, rest, rfl, .inl ⟨trivial, rfl⟩⟩⟩
        · exact ⟨_, rfl, .inr ⟨turn, rest, rfl, .inr ⟨hpayload, .inl ⟨trivial, rfl⟩⟩⟩⟩

theorem mem_finishEvents {event : Event} (h : event ∈ finishEvents answers) :
    event = .recv .none ∨ event = .postHook := by
  unfold finishEvents at h
  split at h
  · simpa using h
  · exact .inl (by simpa using h)

/-- Events behind the release that are in order by themselves. -/
structure Finishing (turns : List Turn) (events : List Event) (raised : Prop) : Prop where
  quiet : ∀ event ∈ events, ¬ event.Uses
  consumed_le : consumed events <+: turns.map Turn.payload
  postHook_once : events.count .postHook ≤ 1
  postHook_behind : .postHook ∈ events → [.recv .none, .postHook].Sublist events
  answered : Answered (exchange events) ∨
    raised ∧ ∃ front payload, exchange events = front ++ [.recv payload] ∧ Answered front

theorem Finished.finishing {es : List Event} {raised : Prop}
    (h : Finished answers turns es raised) : Finishing turns es raised := by
  have hquiet : ∀ event ∈ finishEvents answers, ¬ event.Uses := by
    intro event hevent
    rcases mem_finishEvents hevent with rfl | rfl <;> exact id
  rcases h with rfl | ⟨next, rest, rfl, ⟨hraised, rfl⟩ | ⟨hnext, h⟩⟩
  · exact ⟨fun _ h => absurd h List.not_mem_nil, List.nil_prefix, Nat.zero_le _,
      fun h => absurd h List.not_mem_nil, .inl ⟨[], rfl⟩⟩
  · refine ⟨?_, ?_, Nat.zero_le _, ?_, .inr ⟨hraised, [], next.payload, rfl, [], rfl⟩⟩
    · intro event hevent
      obtain rfl := List.mem_singleton.mp hevent
      exact id
    · exact (List.prefix_cons_inj _).mpr List.nil_prefix
    · intro hmem
      cases List.mem_singleton.mp hmem
  · rcases h with ⟨hraised, rfl⟩ | rfl
    · refine ⟨hquiet, ?_, ?_, ?_, .inr ⟨hraised, [], .none, ?_, [], rfl⟩⟩
      all_goals
        unfold finishEvents
        split <;> simp [hnext, consumed, exchange]
    · refine ⟨?_, ?_, ?_, ?_, .inl ⟨[(.none, .ok)], ?_⟩⟩
      · intro event hevent
        rcases List.mem_append.mp hevent with hevent | hevent
        · exact hquiet event hevent
        · obtain rfl := List.mem_singleton.mp hevent
          exact id
      all_goals
        unfold finishEvents
        split <;> simp [hnext, consumed, exchange]

/-- The release, and what is done behind it, are in order. -/
theorem Finishing.orderly {es : List Event} {raised : Prop} (h : Finishing turns es raised)
    (hpayload : turn.payload = .none) :
    Orderly nbytes (turn :: turns) ([.recv .none, .detach, .reply .ok] ++ es) raised := by
  apply Orderly.quiet
  · rw [hpayload]
    rfl
  · intro event hevent
    rcases List.mem_append.mp hevent with hevent | hevent
    · simp only [List.mem_cons, List.not_mem_nil, or_false] at hevent
      rcases hevent with rfl | rfl | rfl <;> exact id
    · exact h.quiet event hevent
  · rw [consumed_append, List.map_cons, hpayload]
    exact (List.prefix_cons_inj _).mpr h.consumed_le
  · rw [List.count_append]
    simpa using h.postHook_once
  · intro hmem
    have hmem : .postHook ∈ es := by simpa using hmem
    exact (((h.postHook_behind hmem).cons (.reply .ok)).cons_cons .detach).cons_cons (.recv .none)
  · rw [exchange_append]
    rcases h.answered with hanswered | ⟨hraised, front, payload, heq, hfront⟩
    · exact .inl hanswered.cons
    · refine .inr ⟨hraised, .recv .none :: .reply .ok :: front, payload, ?_, hfront.cons⟩
      rw [heq]
      rfl

/-- More has been done, in order. -/
def Progress (nbytes : Nat) (turns : List Turn) (s : Session) (raised : Prop) (t : Session) :
    Prop :=
  t.ipcHandler.isSome ∧
    ∃ es, t.events = s.events ++ es ∧ Orderly nbytes turns es raised

theorem Progress.of_doing {t : Session} {es : List Event} {raised : Prop}
    (hhandler : t.ipcHandler.isSome) (hevents : t.events = s.events)
    (h : Orderly nbytes turns es raised) : Progress nbytes turns s raised (t.doing es) :=
  ⟨hhandler, es, by rw [Session.doing, hevents], h⟩

theorem Progress.update {t : Session} {items : List MetadataItem} {reply : Reply} {raised : Prop}
    (hpayload : turn.payload = .metadata items)
    (h : Progress nbytes turns (s.doing (updateEvents nbytes items ++ [.reply reply])) raised t) :
    Progress nbytes (turn :: turns) s raised t := by
  obtain ⟨hhandler, es, hevents, horderly⟩ := h
  refine ⟨hhandler, updateEvents nbytes items ++ .reply reply :: es, ?_,
    horderly.update hpayload⟩
  rw [hevents]
  simp [Session.doing]

/-- A first message of another kind that is not replied to. -/
theorem Orderly.refused {es : List Event} (hpayload : turn.payload.items? = none)
    (h : es = [] ∨ es = [.recv turn.payload] ∨ es = [.recv turn.payload, .detach]) :
    Orderly nbytes (turn :: turns) es True := by
  apply Orderly.quiet hpayload
  · intro event hevent
    rcases h with rfl | rfl | rfl
    · cases hevent
    · obtain rfl := List.mem_singleton.mp hevent
      exact id
    · rcases List.mem_pair.mp hevent with rfl | rfl <;> exact id
  · rcases h with rfl | rfl | rfl <;> simp [consumed]
  · rcases h with rfl | rfl | rfl <;> simp
  · rcases h with rfl | rfl | rfl <;> simp
  · rcases h with rfl | rfl | rfl
    · exact .inl ⟨[], rfl⟩
    · exact .inr ⟨trivial, [], _, rfl, [], rfl⟩
    · exact .inr ⟨trivial, [], _, rfl, [], rfl⟩

/-- The loop keeps its order, whatever the messages are. -/
theorem wp_serve (hreleased : s.released = false) (hbuffer : s.buffer = some nbytes)
    (hhandler : s.ipcHandler.isSome) :
    wp (serve answers turns) (fun _ => Progress nbytes turns s False)
      (fun _ => Progress nbytes turns s True) s := by
  induction turns generalizing s with
  | nil => exact ⟨hhandler, [], (List.append_nil _).symm, .nothing fun _ _ h => nomatch h⟩
  | cons turn rest ih =>
      rw [serve, wp_bind]
      cases hpayload : turn.payload with
      | metadata items =>
          apply wp_mono (wp_updateTurn hreleased hbuffer hpayload)
          · rintro again t ⟨rfl, reply, rfl⟩
            rw [if_pos rfl]
            apply wp_mono (ih (by exact hreleased) (by exact hbuffer) (by exact hhandler))
            · exact fun _ _ => Progress.update hpayload
            · exact fun _ _ => Progress.update hpayload
          · rintro _ t (⟨hrecv, rfl⟩ | ⟨hsend, rfl⟩)
            · refine ⟨hhandler, [], (List.append_nil _).symm, .nothing ?_⟩
              rintro _ _ ⟨⟩
              exact hrecv
            · exact .of_doing hhandler rfl (.unanswered hpayload hsend trivial)
      | none =>
          apply wp_mono (wp_releaseTurn hreleased hhandler hpayload)
          · rintro again t ⟨rfl, rfl⟩
            rw [if_pos rfl]
            have hdetached : (s.detached answers).ipcHandler.isSome := by
              simpa [Session.detached] using hhandler
            apply wp_mono (wp_serve_released (by rfl))
            · rintro _ _ ⟨es, rfl, hfinished⟩
              rw [Session.doing_doing]
              exact .of_doing hdetached rfl (hfinished.finishing.orderly hpayload)
            · rintro _ _ ⟨es, rfl, hfinished⟩
              rw [Session.doing_doing]
              exact .of_doing hdetached rfl (hfinished.finishing.orderly hpayload)
          · have hitems : turn.payload.items? = Option.none := by rw [hpayload]; rfl
            rintro _ t (rfl | rfl | rfl)
            · exact ⟨hhandler, [], (List.append_nil _).symm, .refused hitems (.inl rfl)⟩
            · exact .of_doing hhandler rfl (.refused hitems (.inr (.inl (by rw [hpayload]))))
            · refine .of_doing ?_ rfl (.refused hitems (.inr (.inr (by rw [hpayload]))))
              simpa [Session.detached] using hhandler
      | exception text =>
          have hitems : turn.payload.items? = Option.none := by rw [hpayload]; rfl
          apply wp_mono (wp_endTurn hreleased (.inl ⟨text, hpayload⟩))
          · exact fun _ _ h => h.elim
          · rintro _ t (rfl | rfl)
            · exact ⟨hhandler, [], (List.append_nil _).symm, .refused hitems (.inl rfl)⟩
            · exact .of_doing hhandler rfl (.refused hitems (.inr (.inl rfl)))
      | other =>
          have hitems : turn.payload.items? = Option.none := by rw [hpayload]; rfl
          apply wp_mono (wp_endTurn hreleased (.inr hpayload))
          · exact fun _ _ h => h.elim
          · rintro _ t (rfl | rfl)
            · exact ⟨hhandler, [], (List.append_nil _).symm, .refused hitems (.inl rfl)⟩
            · exact .of_doing hhandler rfl (.refused hitems (.inr (.inl rfl)))

end Loop

/-! ## From the handshake to the exit -/

section Update

variable {answers : Answers} {handle : Handle} {nbytes : Nat} {turns : List Turn} {s : Session}

theorem wp_onHandler {α : Type} {handler : IPCHandler} {call : EStateM WorkerError IPCHandler α}
    {Q : α → Session → Prop} {E : WorkerError → Session → Prop} :
    wp (onHandler handler call) Q E s ↔
      wp call (fun a handler => Q a { s with ipcHandler := some handler })
        (fun e handler => E e { s with ipcHandler := some handler }) handler := by
  simp only [wp, onHandler]
  cases call handler <;> rfl

/-- A handshake that succeeds leaves a handler and a buffer, and has sent one reply. -/
theorem wp_handshake :
    wp (handshake answers handle)
      (fun _ t => t.released = s.released ∧ t.ipcHandler.isSome ∧ t.buffer.isSome ∧
        t.events = s.events ++ [.reply .ok])
      (fun _ _ => True) s := by
  simp only [handshake, wp_bind, wp_attempt, wp_onHandler, wp_modify, wp_require, wp_record]
  refine ⟨fun _ => ?_, fun _ _ => trivial⟩
  apply wp_mono (wp_true (attach answers.runtime handle) _)
  · intro buffer handler _
    exact ⟨fun _ => ⟨fun _ => ⟨rfl, rfl, rfl, rfl⟩, fun _ _ => trivial⟩, fun _ => trivial⟩
  · exact fun _ _ _ => trivial

/-- The worker goes on only after a handshake that has succeeded. -/
theorem wp_greet :
    wp (greet answers handle)
      (fun goesOn t => goesOn = true → t.released = s.released ∧ t.ipcHandler.isSome ∧
        t.buffer.isSome ∧ t.events = s.events ++ [.reply .ok])
      (fun _ _ => True) s := by
  unfold greet
  rw [wp_tryCatch, wp_bind]
  apply wp_mono wp_handshake
  · exact fun _ t h _ => h
  · intro e t _
    simp only [wp_bind, wp_attempt, wp_record, wp_ite, wp_pure, wp_throw]
    refine ⟨fun _ => ⟨fun _ => ?_, fun _ hfalse => ?_⟩, fun _ _ => trivial⟩
    · exact ⟨fun _ => trivial, fun _ _ => trivial⟩
    · cases hfalse

theorem wp_cleanUp (hhandler : s.ipcHandler.isSome) :
    wp (cleanUp answers) (fun _ t => t.events = s.events ++ [.closeSocket, .detach])
      (fun _ t => t.events = s.events ++ [.closeSocket, .detach]) s := by
  simp only [cleanUp, wp_bind, wp_modify, wp_record, wp_attempt]
  rw [wp_detach (by exact hhandler)]
  have hevents : s.events ++ [.closeSocket] ++ [.detach] = s.events ++ [.closeSocket, .detach] :=
    List.append_assoc _ _ _
  exact ⟨fun _ => hevents, fun _ _ => hevents⟩

/-- The loop with its clean-up keeps its order. -/
theorem wp_serveAndCleanUp (hreleased : s.released = false) (hbuffer : s.buffer = some nbytes)
    (hhandler : s.ipcHandler.isSome) :
    wp (serveAndCleanUp answers turns)
      (fun _ t => ∃ es, t.events = s.events ++ es ∧ Orderly nbytes turns es False)
      (fun _ t => ∃ es, t.events = s.events ++ es ∧ Orderly nbytes turns es True) s := by
  unfold serveAndCleanUp
  rw [wp_bind, wp_tryCatch]
  have hclean : ∀ {t u : Session} {es : List Event} {raised : Prop},
      t.events = s.events ++ es → Orderly nbytes turns es raised →
      u.events = t.events ++ [.closeSocket, .detach] →
      ∃ es, u.events = s.events ++ es ∧ Orderly nbytes turns es raised := by
    intro t u es raised ht horderly hu
    exact ⟨_, by rw [hu, ht, List.append_assoc], horderly.cleanUp⟩
  apply wp_mono (wp_serve hreleased hbuffer hhandler)
  · rintro ending t ⟨hsome, es, ht, horderly⟩
    rw [wp_ite]
    refine ⟨fun _ => ⟨es, ht, horderly⟩, fun _ => ?_⟩
    rw [wp_bind]
    apply wp_mono (wp_cleanUp hsome)
    · exact fun _ _ => hclean ht horderly
    · intro _ _ hu
      obtain ⟨es, hes, horderly⟩ := hclean ht horderly hu
      exact ⟨es, hes, horderly.mono False.elim⟩
  · rintro e t ⟨hsome, es, ht, horderly⟩
    rw [wp_bind]
    apply wp_mono (wp_cleanUp hsome)
    · exact fun _ _ => hclean ht horderly
    · exact fun _ _ => hclean ht horderly

/-- Whatever messages come behind a handshake that has succeeded, and whatever any of the calls
answers: what the worker does from there on is in order. -/
theorem update_orderly (hattach : greet answers handle .new = .ok true s) :
    ∃ nbytes, s.buffer = some nbytes ∧
      wp (serveAndCleanUp answers turns)
        (fun _ t => ∃ es, t.events = [.reply .ok] ++ es ∧ Orderly nbytes turns es False)
        (fun _ t => ∃ es, t.events = [.reply .ok] ++ es ∧ Orderly nbytes turns es True) s := by
  have hgreet := @wp_greet answers handle .new
  rw [wp, hattach] at hgreet
  obtain ⟨hreleased, hhandler, hbuffer, hevents⟩ := hgreet rfl
  obtain ⟨nbytes, hbuffer⟩ := Option.isSome_iff_exists.mp hbuffer
  have hevents : s.events = [.reply .ok] := hevents
  rw [← hevents]
  exact ⟨nbytes, hbuffer, wp_serveAndCleanUp hreleased hbuffer hhandler⟩

end Update

/-- Nothing outside raises. -/
def quietAnswers : Answers := ⟨⟨fun _ => none, 0x7000, .uint8⟩, fun _ => none, true, true⟩

/-- The worker after a handshake with a tuple for eight bytes. -/
def attached : Session := ⟨some .torch, some 8, false, false, [.reply .ok]⟩

/-- A tensor of four bytes at the start of the buffer. -/
def fourBytes : MetadataItem :=
  .dict (some (.str "a")) (.value [4]) (.value .uint8) (.value 0)

/-- Two metadata lists, of which the first makes `run` raise, and twice None. -/
def updateTurns : List Turn :=
  [⟨.metadata [fourBytes], fun site => if site = .run then some (.outside "run") else none⟩,
    ⟨.metadata [fourBytes, fourBytes], fun _ => none⟩, ⟨.none, fun _ => none⟩,
    ⟨.none, fun _ => none⟩]

theorem update_orderly_runRaises :
    ∃ t, serveAndCleanUp quietAnswers updateTurns attached = .ok .returned t ∧
      ∃ es, t.events = [.reply .ok] ++ es ∧ Orderly 8 updateTurns es False := by
  have hattach : greet quietAnswers (.reduced 8) .new = .ok true attached := rfl
  obtain ⟨nbytes, hbuffer, h⟩ := @update_orderly quietAnswers (.reduced 8) updateTurns _ hattach
  obtain rfl : 8 = nbytes := Option.some.inj hbuffer
  obtain ⟨t, hrun⟩ : ∃ t, serveAndCleanUp quietAnswers updateTurns attached = .ok .returned t :=
    ⟨_, rfl⟩
  rw [wp, hrun] at h
  exact ⟨t, hrun, h⟩

/-- A list of something that is no dictionary is consumed and replied to, but `run` is not
called for it. -/
theorem illFormedList_not_run :
    ∃ t, serveAndCleanUp quietAnswers
        ([.metadata [.other], .none, .none].map fun payload => ⟨payload, fun _ => none⟩) attached =
          .ok .returned t ∧
      lists (consumed t.events) = [[.other]] ∧ runs t.events = [] := by
  refine ⟨_, rfl, ?_, ?_⟩
  · decide
  · decide

end CheckpointEngine.Worker
