/-
  `Worker.Release`: when the worker has released its resources by the time it exits.

  The second `try` closes the socket and detaches whatever happens in it; the first has
  no such clean-up, and a `detach` that fails forgets the mapping.
-/
import CheckpointEngine.Worker.StateMachine

set_option autoImplicit false

namespace CheckpointEngine.Worker

open CheckpointEngine.Foundation
open CheckpointEngine.Foundation.Command

/-! ## Detaching -/

theorem IPCHandler.detach_detach (runtime : Runtime) (handler : IPCHandler) :
    (handler.detach runtime).detach runtime = handler.detach runtime := by
  cases handler with
  | torch => rfl
  | xpu self =>
      obtain ⟨openedPtr, opened, closed⟩ := self
      cases openedPtr with
      | none => rfl
      | some ptr =>
          by_cases h : runtime.raises .xpuSynchronize = none ∧ runtime.raises .closeHandle = none
          · simp only [IPCHandler.detach, h, and_self, if_true]
          · simp only [IPCHandler.detach, h, if_false]

/-- The handler of an attached worker. -/
def attachedHandler (runtime : Runtime) : Handle → IPCHandler
  | .tagged _ _ => .xpu ⟨some runtime.ptr, [runtime.ptr], []⟩
  | .reduced _ | .other => .torch

/-- A detach that finds a mapping to close closes it. -/
def Detaches (runtime : Runtime) (handle : Handle) : Prop :=
  (∃ handleBytes nbytes, handle = .tagged handleBytes nbytes) →
    runtime.raises .xpuSynchronize = none ∧ runtime.raises .closeHandle = none

theorem closed_detach_iff {runtime : Runtime} {handle : Handle} :
    ((attachedHandler runtime handle).detach runtime).Closed ↔ Detaches runtime handle := by
  cases handle with
  | reduced nbytes => exact iff_of_true trivial fun ⟨_, _, h⟩ => nomatch h
  | other => exact iff_of_true trivial fun ⟨_, _, h⟩ => nomatch h
  | tagged handleBytes nbytes =>
      have htagged : Detaches runtime (.tagged handleBytes nbytes) ↔
          runtime.raises .xpuSynchronize = none ∧ runtime.raises .closeHandle = none :=
        ⟨fun h => h ⟨_, _, rfl⟩, fun h _ => h⟩
      rw [htagged]
      simp only [attachedHandler, IPCHandler.detach]
      split
      · rename_i h
        exact iff_of_true rfl h
      · rename_i h
        refine iff_of_false ?_ h
        intro hclosed
        cases hclosed

/-! ## The handshake -/

/-- Attaching to the handle succeeds. -/
def Attaches (runtime : Runtime) : Handle → Prop
  | .reduced _ => runtime.raises .rebuildIpc = none
  | .tagged handleBytes nbytes =>
      runtime.raises .importXpuIpc = none ∧ handleBytes.isSome ∧
        runtime.raises .openHandle = none ∧ nbytes.isSome ∧ runtime.raises .wrapTensor = none
  | .other => False

/-- No step of the handshake raises. -/
structure HandshakeSucceeds (answers : Answers) (handle : Handle) : Prop where
  recvHandle : answers.raises .recvHandle = none
  attaches : Attaches answers.runtime handle
  dtype : answers.runtime.dtype = .uint8
  send : answers.raises .send = none

section Handshake

variable {answers : Answers} {handle : Handle} {s : Session}

theorem wp_entry {σ : Type} {key : String} {field : Option Nat} {Q : Nat → σ → Prop}
    {E : WorkerError → σ → Prop} {s : σ} :
    wp (entry key field) Q E s ↔
      (∀ value, field = some value → Q value s) ∧ (field = none → E (.keyError key) s) := by
  cases field <;> simp [entry]

/-- Attaching succeeds where none of its steps raises, and only there. -/
theorem wp_attach {runtime : Runtime} :
    wp (attach runtime handle)
      (fun _ handler => Attaches runtime handle ∧ runtime.dtype = .uint8 ∧
        handler = attachedHandler runtime handle)
      (fun _ _ => ¬ (Attaches runtime handle ∧ runtime.dtype = .uint8))
      (ipcHandlerForHandle handle) := by
  cases handle with
  | reduced nbytes =>
      simp only [attach, ipcHandlerForHandle, attachTorch, Attaches, wp_bind, wp_get, wp_attempt,
        wp_require, wp_pure, attachedHandler]
      refine ⟨fun hrebuild => ⟨fun hdtype => ⟨hrebuild, hdtype, trivial⟩, ?_⟩, ?_⟩
      · exact fun hdtype h => hdtype h.2
      · rintro e he ⟨hrebuild, _⟩
        rw [he] at hrebuild
        cases hrebuild
  | tagged handleBytes nbytes =>
      simp only [attach, ipcHandlerForHandle, attachXpu, Attaches, wp_bind, wp_get, wp_attempt,
        wp_require, wp_pure, wp_entry, wp_modify, attachedHandler, XpuIPCHandler.new]
      refine ⟨fun himport => ⟨fun bytes hbytes => ⟨fun hopen => ⟨fun n hn => ⟨fun hwrap =>
        ⟨fun hdtype => ?_, fun hdtype h => hdtype h.2⟩, ?_⟩, ?_⟩, ?_⟩, ?_⟩, ?_⟩
      · subst hbytes hn
        exact ⟨⟨himport, rfl, hopen, rfl, hwrap⟩, hdtype, rfl⟩
      · rintro e he ⟨⟨_, _, _, _, hwrap⟩, _⟩
        rw [he] at hwrap
        cases hwrap
      · rintro rfl ⟨⟨_, _, _, hn, _⟩, _⟩
        cases hn
      · rintro e he ⟨⟨_, _, hopen, _⟩, _⟩
        rw [he] at hopen
        cases hopen
      · rintro rfl ⟨⟨_, hbytes, _⟩, _⟩
        cases hbytes
      · rintro e he ⟨⟨himport, _⟩, _⟩
        rw [he] at himport
        cases himport
  | other => exact fun h => h.1

/-- The worker goes on with an attached handler, and only if no step of the handshake has
raised; the socket is still open in any case. -/
theorem wp_greet_release :
    wp (greet answers handle)
      (fun goesOn t => goesOn = true → HandshakeSucceeds answers handle ∧
        t.ipcHandler = some (attachedHandler answers.runtime handle))
      (fun _ t => ¬ HandshakeSucceeds answers handle ∧ t.socketClosed = s.socketClosed) s := by
  unfold greet
  rw [wp_tryCatch, wp_bind]
  have hhandshake : wp (handshake answers handle)
      (fun _ t => HandshakeSucceeds answers handle ∧
        t.ipcHandler = some (attachedHandler answers.runtime handle))
      (fun _ t => ¬ HandshakeSucceeds answers handle ∧ t.socketClosed = s.socketClosed) s := by
    simp only [handshake, wp_bind, wp_attempt, wp_onHandler, wp_modify, wp_require, wp_record]
    refine ⟨fun hrecv => ?_, fun e he => ⟨fun h => ?_, trivial⟩⟩
    · apply wp_mono wp_attach
      · rintro nbytes handler ⟨hattaches, hdtype, rfl⟩
        refine ⟨fun _ => ⟨fun hsend => ⟨⟨hrecv, hattaches, hdtype, hsend⟩, rfl⟩, ?_⟩, ?_⟩
        · intro e he
          refine ⟨fun h => ?_, trivial⟩
          rw [h.send] at he
          cases he
        · exact fun hnot => absurd hdtype hnot
      · exact fun e handler hnot => ⟨fun h => hnot ⟨h.attaches, h.dtype⟩, trivial⟩
    · rw [h.recvHandle] at he
      cases he
  apply wp_mono hhandshake
  · exact fun _ t h _ => h
  · rintro e t ⟨hfails, hsocket⟩
    simp only [wp_bind, wp_attempt, wp_record, wp_ite, wp_pure, wp_throw]
    refine ⟨fun _ => ⟨fun _ => ?_, fun _ hfalse => ?_⟩, fun _ _ => ⟨hfails, hsocket⟩⟩
    · exact ⟨fun _ => ⟨hfails, hsocket⟩, fun _ _ => ⟨hfails, hsocket⟩⟩
    · cases hfalse

end Handshake

/-! ## The loop and the clean-up -/

section Loop

variable {answers : Answers} {turn : Turn} {s : Session} {handler : IPCHandler}

/-- The handler is as it was attached, or detached. -/
def Holding (answers : Answers) (handler : IPCHandler) (s : Session) : Prop :=
  s.ipcHandler = some handler ∨ s.ipcHandler = some (handler.detach answers.runtime)

theorem record_holding {event : Event} (h : Holding answers handler s) :
    Keeps (record event) (Holding answers handler) s := h

theorem detach_holding (h : Holding answers handler s) :
    Keeps (detach answers)
      (fun t => t.ipcHandler = some (handler.detach answers.runtime) ∧
        t.socketClosed = s.socketClosed) s := by
  rw [Keeps]
  rcases h with h | h
  · rw [wp_detach (by rw [h]; rfl)]
    exact ⟨by rw [Session.doing, h]; rfl, rfl⟩
  · rw [wp_detach (by rw [h]; rfl)]
    refine ⟨?_, rfl⟩
    rw [Session.doing, h, Option.map_some, IPCHandler.detach_detach]

theorem finishStep_holding (h : Holding answers handler s) :
    Keeps (finishStep answers turn) (Holding answers handler) s := by
  apply keeps_bind (keeps_require h)
  intro _ _ h
  have hlast : ∀ t, Holding answers handler t → Keeps
      (do
        attempt (turn.raises .synchronize)
        attempt (turn.raises .send)
        record (.reply .ok)) (Holding answers handler) t := by
    intro t h
    apply keeps_bind (keeps_attempt h)
    intro _ _ h
    exact keeps_bind (keeps_attempt h) fun _ _ => record_holding
  apply keeps_ite
  · apply keeps_bind (record_holding h)
    intro _ _ h
    exact keeps_bind (keeps_attempt h) fun _ => hlast
  · exact hlast _ h

theorem releaseStep_holding (h : Holding answers handler s) :
    Keeps (releaseStep answers turn) (Holding answers handler) s := by
  apply keeps_bind (keeps_attempt h)
  intro _ t h
  apply keeps_bind (keeps_modify (by exact h))
  intro _ _ h
  apply keeps_bind (wp_mono (detach_holding h) (fun _ _ h => .inr h.1) fun _ _ h => .inr h.1)
  intro _ _ h
  apply keeps_bind (keeps_attempt h)
  intro _ _ h
  apply keeps_bind (keeps_attempt h)
  intro _ _ h
  apply keeps_bind (keeps_attempt h)
  intro _ _ h
  apply keeps_bind (keeps_attempt h)
  exact fun _ _ => record_holding

theorem extract_holding {payload : List MetadataItem} (h : Holding answers handler s) :
    Keeps (extract payload) (Holding answers handler) s := by
  apply keeps_bind (keeps_get h)
  intro current t h
  cases current.buffer with
  | none => exact h
  | some nbytes =>
      apply keeps_bind (record_holding h)
      intro _ _ h
      split <;> exact h

theorem updateStep_holding {items : List MetadataItem} (h : Holding answers handler s) :
    Keeps (updateStep turn items) (Holding answers handler) s := by
  apply keeps_tryCatch
  · apply keeps_bind (extract_holding h)
    intro _ _ h
    apply keeps_bind (record_holding h)
    intro _ _ h
    apply keeps_bind (keeps_attempt h)
    intro _ _ h
    apply keeps_bind (keeps_attempt h)
    intro _ _ h
    exact keeps_bind (keeps_attempt h) fun _ _ => record_holding
  · exact fun _ _ h => keeps_bind (keeps_attempt h) fun _ _ => record_holding

theorem serveTurn_holding (h : Holding answers handler s) :
    Keeps (serveTurn answers turn) (Holding answers handler) s := by
  apply keeps_bind (keeps_attempt h)
  intro _ _ h
  apply keeps_bind (record_holding h)
  intro _ _ h
  apply keeps_bind (keeps_get h)
  intro _ t h
  apply keeps_ite
  · exact keeps_bind (finishStep_holding h) fun _ _ h => h
  · cases turn.payload with
    | none => exact keeps_bind (releaseStep_holding h) fun _ _ h => h
    | metadata items => exact keeps_bind (updateStep_holding h) fun _ _ h => h
    | exception text => exact h
    | other => exact h

theorem serve_holding {turns : List Turn} (h : Holding answers handler s) :
    Keeps (serve answers turns) (Holding answers handler) s := by
  induction turns generalizing s with
  | nil => exact h
  | cons turn rest ih =>
      apply keeps_bind (serveTurn_holding h)
      intro again t h
      exact keeps_ite (ih h) h

/-- The clean-up closes the socket and detaches, also when it raises itself. -/
theorem cleanUp_releases (h : Holding answers handler s) :
    Keeps (cleanUp answers)
      (fun t => t.socketClosed = true ∧
        t.ipcHandler = some (handler.detach answers.runtime)) s := by
  have hdetach : ∀ t : Session, t.socketClosed = true → Holding answers handler t →
      Keeps (detach answers) (fun t => t.socketClosed = true ∧
        t.ipcHandler = some (handler.detach answers.runtime)) t := by
    intro t hclosed h
    rw [← hclosed]
    exact wp_mono (detach_holding h) (fun _ _ h => h.symm) fun _ _ h => h.symm
  simp only [cleanUp, Keeps, wp_bind, wp_modify, wp_record]
  apply wp_mono (hdetach _ _ _)
  · exact fun _ _ h => wp_attempt.mpr ⟨fun _ => h, fun _ _ => h⟩
  · exact fun _ _ h => h
  · rfl
  · exact h

/-- The second `try` ends with the socket closed and the handler detached. -/
theorem serveAndCleanUp_releases {turns : List Turn} (h : Holding answers handler s) :
    wp (serveAndCleanUp answers turns)
      (fun ending t => ending = .waiting ∨ t.socketClosed = true ∧
        t.ipcHandler = some (handler.detach answers.runtime))
      (fun _ t => t.socketClosed = true ∧
        t.ipcHandler = some (handler.detach answers.runtime)) s := by
  unfold serveAndCleanUp
  rw [wp_bind, wp_tryCatch]
  apply wp_mono (serve_holding h)
  · intro ending t h
    rw [wp_ite]
    refine ⟨fun _ => .inl rfl, fun _ => ?_⟩
    rw [wp_bind]
    exact wp_mono (cleanUp_releases h) (fun _ _ h => .inr h) fun _ _ h => h
  · intro e t h
    rw [wp_bind]
    exact wp_mono (cleanUp_releases h) (fun _ _ h => h) fun _ _ h => h

end Loop

/-! ## The function -/

/-- The function returns or raises: it does not wait for ever. -/
def Exits (c : Step Ending) (s : Session) : Prop := ∀ t, c s ≠ .ok .waiting t

/-- The socket is closed, and every mapping opened has been closed exactly once. -/
def Released (s : Session) : Prop :=
  s.socketClosed = true ∧ ∀ handler, s.ipcHandler = some handler → handler.Closed

/-- When the worker exits, it has released its resources exactly if the handshake has
succeeded and a mapping was detached without an exception. -/
theorem resources_released_iff {answers : Answers} {handle : Handle} {turns : List Turn}
    (hexits : Exits (updateWeightsFromIpc answers handle turns) .new) :
    Released (after (updateWeightsFromIpc answers handle turns) .new) ↔
      HandshakeSucceeds answers handle ∧ Detaches answers.runtime handle := by
  have hend : ∀ t : Session, HandshakeSucceeds answers handle → t.socketClosed = true →
      t.ipcHandler = some ((attachedHandler answers.runtime handle).detach answers.runtime) →
      (Released t ↔ HandshakeSucceeds answers handle ∧ Detaches answers.runtime handle) := by
    intro t hsucceeds hsocket hhandler
    rw [Released, hhandler, ← @closed_detach_iff answers.runtime handle]
    exact ⟨fun h => ⟨hsucceeds, h.2 _ rfl⟩,
      fun h => ⟨hsocket, fun _ heq => Option.some.inj heq ▸ h.2⟩⟩
  have hwp : wp (updateWeightsFromIpc answers handle turns)
      (fun ending t => ending = .waiting ∨
        (Released t ↔ HandshakeSucceeds answers handle ∧ Detaches answers.runtime handle))
      (fun _ t => Released t ↔ HandshakeSucceeds answers handle ∧ Detaches answers.runtime handle)
      .new := by
    rw [updateWeightsFromIpc, wp_bind]
    apply wp_mono wp_greet_release
    · intro goesOn t h
      rw [wp_ite]
      refine ⟨fun htrue => ?_, fun _ => .inl rfl⟩
      obtain ⟨hsucceeds, hhandler⟩ := h htrue
      apply wp_mono (serveAndCleanUp_releases (.inl hhandler))
      · intro ending u hu
        exact hu.imp_right fun hu => hend u hsucceeds hu.1 hu.2
      · exact fun _ u hu => hend u hsucceeds hu.1 hu.2
    · rintro e t ⟨hfails, hsocket⟩
      refine iff_of_false (fun hreleased => ?_) fun h => hfails h.1
      have hopen : t.socketClosed = false := hsocket
      rw [hreleased.1] at hopen
      cases hopen
  unfold wp at hwp
  unfold after
  cases hresult : updateWeightsFromIpc answers handle turns .new with
  | error e t =>
      rw [hresult] at hwp
      exact hwp
  | ok ending t =>
      rw [hresult] at hwp
      apply hwp.resolve_left
      rintro rfl
      exact hexits t hresult

/-- A mapping is attached, one list handed over, and the server gives up. -/
theorem resources_released_iff_serverGivesUp :
    Released (after (updateWeightsFromIpc quietAnswers (.tagged (some 5) (some 8))
      [⟨.metadata [fourBytes], fun _ => none⟩, ⟨.exception "failed", fun _ => none⟩]) .new) := by
  apply (resources_released_iff _).mpr
  · exact ⟨⟨rfl, ⟨rfl, rfl, rfl, rfl, rfl⟩, rfl, rfl⟩, fun _ => ⟨rfl, rfl⟩⟩
  · intro t h
    cases h

/-- The tensor cannot be wrapped around a mapping that has been opened. -/
def wrapRaises : Answers :=
  { quietAnswers with
    runtime := ⟨fun site => if site = .wrapTensor then some (.outside "wrap") else none, 0x7000,
      .uint8⟩ }

/-- The function raises with its socket open and the mapping in place. -/
theorem wrapRaises_not_released :
    updateWeightsFromIpc wrapRaises (.tagged (some 5) (some 8)) [] .new =
        .error (.outside "wrap")
          ⟨some (.xpu ⟨some 0x7000, [0x7000], []⟩), none, false, false, [.reply .error]⟩ ∧
      ¬ Released (after (updateWeightsFromIpc wrapRaises (.tagged (some 5) (some 8)) []) .new) := by
  refine ⟨rfl, fun h => ?_⟩
  cases h.1

end CheckpointEngine.Worker
