/-
  `Worker.Turns`: what one message makes the worker do.

  Each lemma names the events of a turn: all of them where the loop goes on or ends, and
  a beginning of them where the turn raises.
-/
import CheckpointEngine.Worker.UpdateWeights

set_option autoImplicit false

namespace CheckpointEngine.Worker

open CheckpointEngine.Foundation
open CheckpointEngine.Foundation.Command

variable {answers : Answers} {turn : Turn} {s : Session}

/-- More events, nothing else. -/
def Session.doing (s : Session) (events : List Event) : Session :=
  { s with events := s.events ++ events }

@[simp] theorem Session.doing_doing (es es' : List Event) :
    (s.doing es).doing es' = s.doing (es ++ es') := by
  simp [Session.doing]

@[simp] theorem Session.doing_released (es : List Event) : (s.doing es).released = s.released :=
  rfl

@[simp] theorem Session.doing_buffer (es : List Event) : (s.doing es).buffer = s.buffer := rfl

@[simp] theorem Session.doing_ipcHandler (es : List Event) :
    (s.doing es).ipcHandler = s.ipcHandler := rfl

@[simp] theorem wp_record {event : Event} {Q : PUnit → Session → Prop}
    {E : WorkerError → Session → Prop} :
    wp (record event) Q E s ↔ Q () (s.doing [event]) := Iff.rfl

/-- The call of `run` for a metadata list, unless its slices cannot be taken. -/
def runEvents (nbytes : Nat) (items : List MetadataItem) : List Event :=
  match extractWeights nbytes items with
  | .ok weights => [.run weights]
  | .error _ => []

/-- The events of a turn with a metadata list, up to its reply. -/
def updateEvents (nbytes : Nat) (items : List MetadataItem) : List Event :=
  [.recv (.metadata items), .extract] ++ runEvents nbytes items

/-- Whatever a metadata list makes `run` do, it is replied to and the loop goes on; only the
sending of an error can raise. -/
theorem wp_updateStep {nbytes : Nat} {items : List MetadataItem}
    (hbuffer : s.buffer = some nbytes) :
    wp (updateStep turn items)
      (fun _ t => ∃ reply, t = s.doing ([.extract] ++ runEvents nbytes items ++ [.reply reply]))
      (fun _ t => turn.raises .sendString ≠ none ∧
        t = s.doing ([.extract] ++ runEvents nbytes items)) s := by
  unfold updateStep
  rw [wp_tryCatch]
  -- an exception of any of the calls is replied to
  have hcaught : ∀ u : Session, u = s.doing ([.extract] ++ runEvents nbytes items) →
      wp (attempt (turn.raises .sendString))
        (fun _ t => ∃ reply, t.doing [.reply .error] =
          s.doing ([.extract] ++ runEvents nbytes items ++ [.reply reply]))
        (fun _ t => turn.raises .sendString ≠ none ∧
          t = s.doing ([.extract] ++ runEvents nbytes items)) u := by
    rintro _ rfl
    rw [wp_attempt]
    refine ⟨fun _ => ⟨.error, Session.doing_doing _ _⟩, fun e he => ⟨?_, rfl⟩⟩
    rw [he]
    exact Option.some_ne_none e
  simp only [extract, wp_bind, wp_get, hbuffer, wp_record]
  cases hweights : extractWeights nbytes items with
  | error e =>
      rw [wp_throw]
      apply hcaught
      simp only [runEvents, hweights, List.append_nil]
  | ok weights =>
      have hrun : (s.doing [.extract]).doing [.run weights] =
          s.doing ([.extract] ++ runEvents nbytes items) := by
        simp only [Session.doing_doing, runEvents, hweights]
      rw [wp_pure, wp_attempt]
      simp only [wp_attempt]
      refine ⟨fun _ => ⟨fun _ => ⟨fun _ => ⟨.ok, ?_⟩, ?_⟩, ?_⟩, ?_⟩
      · rw [hrun, Session.doing_doing]
      all_goals exact fun _ _ => wp_attempt.mp (hcaught _ hrun)

/-- A turn with a metadata list. -/
theorem wp_updateTurn {nbytes : Nat} {items : List MetadataItem} (hreleased : s.released = false)
    (hbuffer : s.buffer = some nbytes) (hpayload : turn.payload = .metadata items) :
    wp (serveTurn answers turn)
      (fun again t => again = true ∧
        ∃ reply, t = s.doing (updateEvents nbytes items ++ [.reply reply]))
      (fun _ t => (turn.raises .recv ≠ none ∧ t = s) ∨
        (turn.raises .sendString ≠ none ∧ t = s.doing (updateEvents nbytes items))) s := by
  simp only [serveTurn, wp_bind, wp_attempt, wp_record, wp_get, Session.doing_released, hreleased,
    hpayload, Bool.false_eq_true, if_false]
  refine ⟨fun _ => ?_, fun e he => .inl ⟨by rw [he]; exact Option.some_ne_none e, trivial⟩⟩
  apply wp_mono (wp_updateStep (by exact hbuffer))
  · rintro _ t ⟨reply, rfl⟩
    exact ⟨rfl, reply, Session.doing_doing _ _⟩
  · rintro _ t ⟨hsend, rfl⟩
    exact .inr ⟨hsend, Session.doing_doing _ _⟩

/-- Behind the release. -/
def Session.detached (answers : Answers) (s : Session) : Session :=
  { s with
    released := true
    buffer := none
    ipcHandler := s.ipcHandler.map fun handler => handler.detach answers.runtime }

theorem wp_detach {Q : PUnit → Session → Prop} {E : WorkerError → Session → Prop}
    (hhandler : s.ipcHandler.isSome) :
    wp (detach answers) Q E s ↔ Q () (Session.doing
      { s with ipcHandler := s.ipcHandler.map fun handler => handler.detach answers.runtime }
      [.detach]) := by
  simp only [detach, wp_bind, wp_get, hhandler, if_true, wp_modify, wp_record]

/-- The turn of the first None. -/
theorem wp_releaseTurn (hreleased : s.released = false) (hhandler : s.ipcHandler.isSome)
    (hpayload : turn.payload = .none) :
    wp (serveTurn answers turn)
      (fun again t => again = true ∧
        t = (s.detached answers).doing [.recv .none, .detach, .reply .ok])
      (fun _ t => t = s ∨ t = s.doing [.recv .none] ∨
        t = (s.detached answers).doing [.recv .none, .detach]) s := by
  simp only [serveTurn, wp_bind, wp_attempt, wp_record, wp_get, Session.doing_released, hreleased,
    hpayload, Bool.false_eq_true, if_false]
  refine ⟨fun _ => ?_, fun _ _ => .inl trivial⟩
  simp only [releaseStep, wp_bind, wp_attempt, wp_modify, wp_record, wp_pure]
  refine ⟨fun _ => ?_, fun _ _ => .inr (.inl trivial)⟩
  rw [wp_detach (by exact hhandler)]
  have hdetached : ∀ es, (Session.doing
      { s.doing [.recv .none] with
        released := true
        buffer := none
        ipcHandler := s.ipcHandler.map fun handler => handler.detach answers.runtime } es) =
      (s.detached answers).doing ([.recv .none] ++ es) := by
    intro es
    simp [Session.doing, Session.detached]
  refine ⟨fun _ => ⟨fun _ => ⟨fun _ => ⟨fun _ => ⟨trivial, ?_⟩, ?_⟩, ?_⟩, ?_⟩, ?_⟩
  · rw [Session.doing_doing]
    exact hdetached _
  all_goals exact fun _ _ => .inr (.inr (hdetached _))

/-- The events of the turn behind the release, up to its reply. -/
def finishEvents (answers : Answers) : List Event :=
  .recv .none :: if answers.hasPostHook then [.postHook] else []

/-- A turn behind the release. -/
theorem wp_finishTurn (hreleased : s.released = true) :
    wp (serveTurn answers turn)
      (fun again t => again = false ∧ turn.payload = .none ∧
        t = s.doing (finishEvents answers ++ [.reply .ok]))
      (fun _ t => t = s ∨ t = s.doing [.recv turn.payload] ∨
        (turn.payload = .none ∧ t = s.doing (finishEvents answers))) s := by
  simp only [serveTurn, wp_bind, wp_attempt, wp_record, wp_get, Session.doing_released, hreleased,
    if_true, finishStep, wp_require]
  refine ⟨fun _ => ⟨fun hpayload => ?_, fun _ => .inr (.inl trivial)⟩, fun _ _ => .inl trivial⟩
  cases hhook : answers.hasPostHook with
  | false =>
      simp only [finishEvents, hhook, hpayload, Bool.false_eq_true, if_false, wp_bind, wp_pure,
        wp_attempt, wp_record, Session.doing_doing]
      refine ⟨fun _ => ⟨fun _ => ⟨trivial, trivial, trivial⟩, ?_⟩, ?_⟩
      all_goals exact fun _ _ => .inr (.inl trivial)
  | true =>
      simp only [finishEvents, hhook, hpayload, if_true, wp_bind, wp_pure, wp_attempt, wp_record,
        Session.doing_doing]
      refine ⟨fun _ => ⟨fun _ => ⟨fun _ => ⟨trivial, trivial, rfl⟩, ?_⟩, ?_⟩, ?_⟩
      all_goals exact fun _ _ => .inr (.inr ⟨trivial, rfl⟩)

/-- A turn that ends the loop before the release. -/
theorem wp_endTurn (hreleased : s.released = false)
    (hpayload : (∃ text, turn.payload = .exception text) ∨ turn.payload = .other) :
    wp (serveTurn answers turn) (fun _ _ => False)
      (fun _ t => t = s ∨ t = s.doing [.recv turn.payload]) s := by
  simp only [serveTurn, wp_bind, wp_attempt, wp_record, wp_get, Session.doing_released, hreleased,
    Bool.false_eq_true, if_false]
  refine ⟨fun _ => ?_, fun _ _ => .inl trivial⟩
  rcases hpayload with ⟨text, hpayload⟩ | hpayload
  · rw [hpayload]
    exact .inr rfl
  · rw [hpayload]
    exact .inr rfl

end CheckpointEngine.Worker
