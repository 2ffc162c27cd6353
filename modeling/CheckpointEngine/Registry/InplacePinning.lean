/-
  `Registry.InplacePinning`: all files pinned in place at once, `_inplace_pin_memory` in
  `checkpoint_engine/pin_memory.py`.

  Each file is the task of one item of a thread pool.  A task reads its file, removes it
  and pins its bytes, one after the other; between these steps the tasks of other files go
  on.  A path names one file.
-/
import CheckpointEngine.Foundation.Executor
import CheckpointEngine.Registry.Layout

set_option autoImplicit false

namespace CheckpointEngine.Registry

open CheckpointEngine.Foundation

variable {δ : Type}

/-- A call of `_inplace_pin_memory`, and what it meets: the files that there are, and what
reading, `os.remove` and `_pin` raise in each task apart from that. -/
structure InplacePinning (δ : Type) where
  libs : Libraries δ
  files : List String
  content : String → Option (List UInt8)
  readRaises : Nat → Option PyError
  removeRaises : Nat → Option PyError
  pinRaises : Nat → Option PyError

/-- What the tasks share: the files removed, and the tasks whose bytes are registered with
CUDA. -/
structure HostEffects where
  removed : List String
  registered : List Nat
  deriving DecidableEq, Repr

/-- How far a task is with its file. -/
inductive FilePhase (δ : Type) where
  | opening
  | parsed (buffer : List UInt8) (metas : List (ReadMeta δ))
  | removed (buffer : List UInt8) (metas : List (ReadMeta δ))

/-- The task of a file, seen from the pool. -/
abbrev FileFuture (δ : Type) := Future (FilePhase δ) (ReadBuffer δ) PyError

/-- The pool of a call. -/
abbrev CallState (δ : Type) := PoolState HostEffects (FilePhase δ) (ReadBuffer δ) PyError

namespace InplacePinning

variable (p : InplacePinning δ)

/-- The file of a task. -/
def path (i : Nat) : String := p.files.getD i ""

/-- What a path without a file raises. -/
def noSuchFile (filePath : String) : PyError :=
  .osError s!"No such file or directory: '{filePath}'"

/-- What a task parses, where its file is still there. -/
def read (i : Nat) : Except PyError (List UInt8 × List (ReadMeta δ)) :=
  match p.readRaises i with
  | some error => .error error
  | none =>
      match p.content (p.path i) with
      | none => .error (noSuchFile (p.path i))
      | some content => parseContent p.libs content

/-- The steps of `_parse_and_pin_from_safetensors`. -/
def fileStep (i : Nat) (host : HostEffects) :
    FilePhase δ → Progress HostEffects (FilePhase δ) (ReadBuffer δ) PyError
  | .opening =>
      if p.path i ∈ host.removed then .ended (.error (noSuchFile (p.path i))) host
      else
        match p.read i with
        | .error error => .ended (.error error) host
        | .ok (buffer, metas) => .going (.parsed buffer metas) host
  | .parsed buffer metas =>
      if p.path i ∈ host.removed then .ended (.error (noSuchFile (p.path i))) host
      else
        match p.removeRaises i with
        | some error => .ended (.error error) host
        | none => .going (.removed buffer metas)
            { host with removed := p.path i :: host.removed }
  | .removed buffer metas =>
      if metas.isEmpty then
        if buffer.length = 0 then .ended (.ok ⟨buffer, buffer.length, [], false⟩) host
        else .ended (.error (.assertionError s!"buffer nbytes {buffer.length} should be 0")) host
      else
        match p.pinRaises i with
        | some error => .ended (.error error) host
        | none => .ended (.ok ⟨buffer, buffer.length, metas, true⟩)
            { host with registered := i :: host.registered }

/-- `executor.map(_parse_and_pin_from_safetensors, files)` with 32 workers. -/
def tasks : Tasks HostEffects (FilePhase δ) (ReadBuffer δ) PyError where
  count := p.files.length
  workers := 32
  workers_pos := by decide
  shared := ⟨[], []⟩
  start _ := .opening
  step := p.fileStep

/-- Whatever the order of the steps: where the call raises, no file is removed and nothing
is left registered; where it returns, the data of each file that is removed is in a buffer
that it returns, and is registered, if there is any. -/
def AllOrNothing : Prop :=
  ∀ s, p.tasks.pool.Reachable s →
    (∀ error, s.caller = .raised error → s.shared = ⟨[], []⟩) ∧
    ∀ buffers, s.caller = .returned buffers → ∀ filePath ∈ s.shared.removed,
      ∃ i b content, p.files[i]? = some filePath ∧ buffers[i]? = some b ∧
        p.content filePath = some content ∧ b.buffer = dataSection content ∧
        (b.buffer = [] ∨ b.manuallyPinned = true ∧ i ∈ s.shared.registered)

/-- A task that nothing stops. -/
def Succeeds (i : Nat) : Prop :=
  ∃ buffer metas, p.read i = .ok (buffer, metas) ∧ p.removeRaises i = none ∧
    (metas = [] ∨ p.pinRaises i = none)

/-- A task that ends before it removes its file. -/
def FailsFirst (i : Nat) : Prop :=
  (∃ error, p.read i = .error error) ∨ ∃ error, p.removeRaises i = some error

variable {p}

/-! ## What a step of a task does -/

variable (p) in
/-- What a call for the file of a task alone returns. -/
def Returns (i : Nat) (b : ReadBuffer δ) : Prop :=
  p.readRaises i = none ∧ ∃ content, p.content (p.path i) = some content ∧
    parseAndPinFromSafetensors p.libs (p.removeRaises i) (p.pinRaises i) content = .ok b

variable (p) in
/-- What is known of a task from where it is. -/
def Fits (host : HostEffects) (i : Nat) : FileFuture δ → Prop
  | .running (.parsed buffer metas) => p.read i = .ok (buffer, metas)
  | .running (.removed buffer metas) =>
      p.read i = .ok (buffer, metas) ∧ p.removeRaises i = none ∧ p.path i ∈ host.removed
  | .finished (.ok b) =>
      p.Returns i b ∧ (b.buffer = [] ∨ b.manuallyPinned = true ∧ i ∈ host.registered)
  | .finished (.error _) =>
      ¬ p.Succeeds i ∨ ∃ j < p.files.length, j ≠ i ∧ p.path j = p.path i
  | _ => True

/-- A task that has removed its file, or has ended. -/
def Past : FileFuture δ → Prop
  | .running (.removed _ _) | .finished _ => True
  | _ => False

theorem read_ok {i : Nat} {parsed : List UInt8 × List (ReadMeta δ)} (h : p.read i = .ok parsed) :
    p.readRaises i = none ∧ ∃ content, p.content (p.path i) = some content ∧
      parseContent p.libs content = .ok parsed := by
  unfold read at h
  split at h
  · cases h
  · next hread =>
      refine ⟨hread, ?_⟩
      split at h
      · cases h
      · next content hcontent => exact ⟨content, hcontent, h⟩

theorem fileStep_going {i : Nat} {host host' : HostEffects} {phase phase' : FilePhase δ}
    (h : p.fileStep i host phase = .going phase' host') :
    (phase = .opening ∧ host' = host ∧ ∃ buffer metas, phase' = .parsed buffer metas ∧
        p.read i = .ok (buffer, metas)) ∨
      ∃ buffer metas, phase = .parsed buffer metas ∧ phase' = .removed buffer metas ∧
        p.removeRaises i = none ∧ host' = { host with removed := p.path i :: host.removed } := by
  cases phase with
  | opening =>
      simp only [fileStep] at h
      split at h
      · cases h
      · split at h
        · cases h
        · next buffer metas hread =>
            obtain ⟨rfl, rfl⟩ := Progress.going.inj h
            exact .inl ⟨rfl, rfl, buffer, metas, rfl, hread⟩
  | parsed buffer metas =>
      simp only [fileStep] at h
      split at h
      · cases h
      · split at h
        · cases h
        · next hremove =>
            obtain ⟨rfl, rfl⟩ := Progress.going.inj h
            exact .inr ⟨buffer, metas, rfl, rfl, hremove, rfl⟩
  | removed buffer metas =>
      simp only [fileStep] at h
      split at h
      · split at h <;> cases h
      · split at h <;> cases h

/-- A task that returns has pinned the bytes of its file, if there are any. -/
theorem fileStep_returns {i : Nat} {host host' : HostEffects} {phase : FilePhase δ}
    {b : ReadBuffer δ} (h : p.fileStep i host phase = .ended (.ok b) host')
    (hfits : p.Fits host i (.running phase)) :
    p.Fits host' i (.finished (.ok b)) ∧
      p.path i ∈ host.removed ∧ host'.removed = host.removed ∧
      (host'.registered = host.registered ∨ host'.registered = i :: host.registered) := by
  cases phase with
  | opening =>
      simp only [fileStep] at h
      split at h
      · cases h
      · split at h <;> cases h
  | parsed buffer metas =>
      simp only [fileStep] at h
      split at h
      · cases h
      · split at h <;> cases h
  | removed buffer metas =>
      obtain ⟨hread, hremove, hgone⟩ := hfits
      obtain ⟨hraises, content, hcontent, hparse⟩ := read_ok hread
      simp only [fileStep] at h
      split at h
      · next hempty =>
          split at h
          · next hlength =>
              obtain ⟨hb, rfl⟩ := Progress.ended.inj h
              obtain rfl := Except.ok.inj hb
              refine ⟨⟨⟨hraises, content, hcontent, ?_⟩, .inl ?_⟩, hgone, rfl, .inl rfl⟩
              · rw [parseAndPinFromSafetensors, hparse, hremove]
                simp only [bind, Except.bind, if_pos hempty, if_pos hlength]
                rfl
              · exact List.length_eq_zero_iff.mp hlength
          · cases h
      · next hempty =>
          split at h
          · cases h
          · next hpin =>
              obtain ⟨hb, rfl⟩ := Progress.ended.inj h
              obtain rfl := Except.ok.inj hb
              refine ⟨⟨⟨hraises, content, hcontent, ?_⟩, .inr ⟨rfl, List.mem_cons_self⟩⟩,
                hgone, rfl, .inr rfl⟩
              rw [parseAndPinFromSafetensors, hparse, hremove, hpin]
              simp only [bind, Except.bind, if_neg hempty]
              rfl

/-- A task that raises leaves everything as it is. -/
theorem fileStep_raises {i : Nat} {host host' : HostEffects} {phase : FilePhase δ}
    {error : PyError} (h : p.fileStep i host phase = .ended (.error error) host')
    (hfits : p.Fits host i (.running phase)) :
    host' = host ∧
      (¬ p.Succeeds i ∨ ¬ Past (.running phase) ∧ p.path i ∈ host.removed) := by
  cases phase with
  | opening =>
      simp only [fileStep] at h
      split at h
      · next hgone =>
          obtain ⟨-, rfl⟩ := Progress.ended.inj h
          exact ⟨rfl, .inr ⟨id, hgone⟩⟩
      · split at h
        · next error' hread =>
            obtain ⟨-, rfl⟩ := Progress.ended.inj h
            refine ⟨rfl, .inl ?_⟩
            intro ⟨buffer, metas, hok, _⟩
            rw [hread] at hok
            cases hok
        · cases h
  | parsed buffer metas =>
      simp only [fileStep] at h
      split at h
      · next hgone =>
          obtain ⟨-, rfl⟩ := Progress.ended.inj h
          exact ⟨rfl, .inr ⟨id, hgone⟩⟩
      · split at h
        · next error' hremove =>
            obtain ⟨-, rfl⟩ := Progress.ended.inj h
            refine ⟨rfl, .inl ?_⟩
            intro ⟨_, _, _, hnone, _⟩
            rw [hremove] at hnone
            cases hnone
        · cases h
  | removed buffer metas =>
      obtain ⟨hread, -⟩ := hfits
      simp only [fileStep] at h
      split at h
      · next hempty =>
          rw [List.isEmpty_iff.mp hempty] at hread
          obtain ⟨-, content, -, hparse⟩ := read_ok hread
          rw [if_pos (List.length_eq_zero_iff.mpr (parseContent_nil hparse))] at h
          cases h
      · next hempty =>
          split at h
          · next error' hpin =>
              obtain ⟨-, rfl⟩ := Progress.ended.inj h
              refine ⟨rfl, .inl ?_⟩
              intro ⟨buffer', metas', hok, _, hmetas⟩
              obtain ⟨rfl, rfl⟩ := Prod.mk.inj (Except.ok.inj (hread.symm.trans hok))
              rcases hmetas with rfl | hnone
              · exact hempty rfl
              · rw [hpin] at hnone
                cases hnone
          · cases h

/-! ## Every run -/

theorem Fits.mono {host host' : HostEffects} {i : Nat}
    {future : FileFuture δ} (h : p.Fits host i future)
    (hremoved : ∀ filePath ∈ host.removed, filePath ∈ host'.removed)
    (hregistered : ∀ j ∈ host.registered, j ∈ host'.registered) : p.Fits host' i future := by
  cases future with
  | pending | cancelled => trivial
  | running phase =>
      cases phase with
      | opening => trivial
      | parsed => exact h
      | removed => exact ⟨h.1, h.2.1, hremoved _ h.2.2⟩
  | finished result =>
      cases result with
      | error => exact h
      | ok => exact ⟨h.1, h.2.imp_right fun hpinned => ⟨hpinned.1, hregistered _ hpinned.2⟩⟩

variable (p) in
/-- Some task has removed the file. -/
def RemovedBy (futures : Nat → FileFuture δ)
    (filePath : String) : Prop :=
  ∃ i < p.files.length, p.path i = filePath ∧ ¬ p.FailsFirst i ∧ Past (futures i)

theorem RemovedBy.update {futures : Nat → FileFuture δ}
    {filePath : String} (h : p.RemovedBy futures filePath) {k : Nat}
    {future : FileFuture δ}
    (hpast : Past (futures k) → Past future) :
    p.RemovedBy (Function.update futures k future) filePath := by
  obtain ⟨i, hi, hpath, hremoves, hi_past⟩ := h
  refine ⟨i, hi, hpath, hremoves, ?_⟩
  by_cases hik : i = k
  · rw [hik, Function.update_self]
    exact hpast (hik ▸ hi_past)
  · rw [Function.update_of_ne hik]
    exact hi_past

variable (p) in
/-- What holds in every run. -/
structure Inv (host : HostEffects)
    (futures : Nat → FileFuture δ) : Prop where
  fits : ∀ i < p.files.length, p.Fits host i (futures i)
  removed : ∀ filePath ∈ host.removed, p.RemovedBy futures filePath
  registered : ∀ i ∈ host.registered, p.path i ∈ host.removed

/-- A task that goes on affects the host, and no other task. -/
theorem Inv.update {host host' : HostEffects}
    {futures : Nat → FileFuture δ} (h : p.Inv host futures)
    {k : Nat} {future : FileFuture δ}
    (hfits : p.Fits host' k future) (hpast : Past (futures k) → Past future)
    (hremoved : host'.removed = host.removed ∨
      host'.removed = p.path k :: host.removed ∧ p.RemovedBy (Function.update futures k future)
        (p.path k))
    (hregistered : host'.registered = host.registered ∨
      host'.registered = k :: host.registered ∧ p.path k ∈ host.removed) :
    p.Inv host' (Function.update futures k future) := by
  have hremoved_mono : ∀ filePath ∈ host.removed, filePath ∈ host'.removed := by
    intro filePath hmem
    rcases hremoved with heq | ⟨heq, -⟩
    · rwa [heq]
    · rw [heq]
      exact List.mem_cons_of_mem _ hmem
  have hregistered_mono : ∀ j ∈ host.registered, j ∈ host'.registered := by
    intro j hmem
    rcases hregistered with heq | ⟨heq, -⟩
    · rwa [heq]
    · rw [heq]
      exact List.mem_cons_of_mem _ hmem
  refine ⟨fun i hi => ?_, fun filePath hmem => ?_, fun i hmem => ?_⟩
  · by_cases hik : i = k
    · rw [hik, Function.update_self]
      exact hfits
    · rw [Function.update_of_ne hik]
      exact (h.fits i hi).mono hremoved_mono hregistered_mono
  · rcases hremoved with heq | ⟨heq, hself⟩
    · exact (h.removed filePath (heq ▸ hmem)).update hpast
    · rw [heq] at hmem
      rcases List.mem_cons.mp hmem with rfl | hmem
      · exact hself
      · exact (h.removed filePath hmem).update hpast
  · rcases hregistered with heq | ⟨heq, hpath⟩
    · exact hremoved_mono _ (h.registered i (heq ▸ hmem))
    · rw [heq] at hmem
      rcases List.mem_cons.mp hmem with rfl | hmem
      · exact hremoved_mono _ hpath
      · exact hremoved_mono _ (h.registered i hmem)

theorem inv_reachable {s : CallState δ}
    (h : p.tasks.pool.Reachable s) : p.Inv s.shared s.futures := by
  have hinit : p.Inv ⟨[], []⟩ fun _ => .pending := ⟨fun _ _ => trivial,
    fun _ hmem => absurd hmem List.not_mem_nil, fun _ hmem => absurd hmem List.not_mem_nil⟩
  apply Tasks.invariant (I := p.Inv) hinit ?_ ?_ ?_ ?_ h
  · intro host futures i hI _ hpending
    have hnot : ¬ Past (futures i) := by
      rw [hpending]
      exact id
    exact hI.update trivial hnot.elim (.inl rfl) (.inl rfl)
  · intro host futures i phase phase' host' hI hi hrunning hstep
    have hfits := hI.fits i hi
    rw [hrunning] at hfits
    obtain ⟨rfl, rfl, buffer, metas, rfl, hread⟩ | ⟨buffer, metas, rfl, rfl, hremove, rfl⟩ :=
      fileStep_going hstep
    · have hnot : ¬ Past (futures i) := by
        rw [hrunning]
        exact id
      exact hI.update hread hnot.elim (.inl rfl) (.inl rfl)
    · have hread : p.read i = .ok (buffer, metas) := hfits
      refine hI.update ⟨hread, hremove, List.mem_cons_self⟩ (fun _ => trivial)
        (.inr ⟨rfl, i, hi, rfl, ?_, ?_⟩) (.inl rfl)
      · rintro (⟨error, herror⟩ | ⟨error, herror⟩)
        · rw [hread] at herror
          cases herror
        · rw [hremove] at herror
          cases herror
      · rw [Function.update_self]
        trivial
  · intro host futures i phase result host' hI hi hrunning hstep
    have hfits := hI.fits i hi
    rw [hrunning] at hfits
    cases result with
    | ok b =>
        obtain ⟨hfits', hgone, hremoved, hregistered⟩ := fileStep_returns hstep hfits
        exact hI.update hfits' (fun _ => trivial) (.inl hremoved)
          (hregistered.imp_right fun heq => ⟨heq, hgone⟩)
    | error error =>
        obtain ⟨rfl, hwhy⟩ := fileStep_raises hstep hfits
        refine hI.update ?_ (fun _ => trivial) (.inl rfl) (.inl rfl)
        refine hwhy.imp_right fun ⟨hnotpast, hgone⟩ => ?_
        obtain ⟨j, hj, hpath, -, hpast⟩ := hI.removed _ hgone
        refine ⟨j, hj, ?_, hpath⟩
        rintro rfl
        rw [hrunning] at hpast
        exact hnotpast hpast
  · intro host futures i hI hpending
    have hnot : ¬ Past (futures i) := by
      rw [hpending]
      exact id
    exact hI.update trivial hnot.elim (.inl rfl) (.inl rfl)

/-- Where the call returns, each task has returned what it would return alone. -/
theorem returned_buffers {s : CallState δ}
    (h : p.tasks.pool.Reachable s) {buffers : List (ReadBuffer δ)}
    (hreturned : s.caller = .returned buffers) :
    buffers.length = p.files.length ∧ ∀ i b, buffers[i]? = some b → p.Returns i b := by
  have hcollected := Tasks.collected_reachable h
  rw [Tasks.Collected, hreturned] at hcollected
  have hlength : buffers.length = p.files.length := hcollected.1
  refine ⟨hlength, fun i b hb => ?_⟩
  have hi : i < p.files.length := hlength ▸ (List.getElem?_eq_some_iff.mp hb).1
  have hfits := (inv_reachable h).fits i hi
  rw [hcollected.2 i b hb] at hfits
  exact hfits.1

theorem getElem?_path {i : Nat} (hi : i < p.files.length) : p.files[i]? = some (p.path i) := by
  rw [path, List.getD_eq_getElem?_getD, List.getElem?_eq_getElem hi, Option.getD_some]

/-- Where the call returns, it returns the data of every file that is removed. -/
theorem returned_data {s : CallState δ}
    (h : p.tasks.pool.Reachable s) {buffers : List (ReadBuffer δ)}
    (hreturned : s.caller = .returned buffers) {filePath : String}
    (hremoved : filePath ∈ s.shared.removed) :
    ∃ i b content, p.files[i]? = some filePath ∧ buffers[i]? = some b ∧
      p.content filePath = some content ∧ b.buffer = dataSection content ∧
      (b.buffer = [] ∨ b.manuallyPinned = true ∧ i ∈ s.shared.registered) := by
  obtain ⟨hlength, hreturns⟩ := returned_buffers h hreturned
  obtain ⟨i, hi, rfl, -, -⟩ := (inv_reachable h).removed filePath hremoved
  have hcollected := Tasks.collected_reachable h
  rw [Tasks.Collected, hreturned] at hcollected
  obtain ⟨b, hb⟩ : ∃ b, buffers[i]? = some b :=
    ⟨_, List.getElem?_eq_getElem (hlength.symm ▸ hi)⟩
  have hfits := (inv_reachable h).fits i hi
  rw [hcollected.2 i b hb] at hfits
  obtain ⟨-, content, hcontent, hread⟩ := hreturns i b hb
  obtain ⟨-, hdata, -⟩ := parseContent_ok (parseAndPinFromSafetensors_ok hread).1
  exact ⟨i, b, content, getElem?_path hi, hb, hcontent, hdata, hfits.2⟩

/-! ## When all files or none are pinned -/

/-- Where nothing stops any task and no file is named twice, the call does not raise. -/
theorem allOrNothing_of_succeeds (hnodup : p.files.Nodup)
    (hall : ∀ i < p.files.length, p.Succeeds i) : p.AllOrNothing := by
  intro s hs
  refine ⟨fun error hraised => ?_, fun _ hreturned _ hmem => returned_data hs hreturned hmem⟩
  have hcollected := Tasks.collected_reachable hs
  rw [Tasks.Collected, hraised] at hcollected
  obtain ⟨i, hi, hfinished⟩ := hcollected
  have hfits := (inv_reachable hs).fits i hi
  rw [hfinished] at hfits
  rcases hfits with hfails | ⟨j, hj, hji, hpath⟩
  · exact absurd (hall i hi) hfails
  · have hsame : p.files[j]? = p.files[i]? := by
      rw [getElem?_path hj, getElem?_path hi, hpath]
    exact absurd ((List.getElem?_inj hj hnodup).mp hsame) hji

/-- Where every task ends before it removes its file, nothing happens to the files. -/
theorem allOrNothing_of_failsFirst (hall : ∀ i < p.files.length, p.FailsFirst i) :
    p.AllOrNothing := by
  intro s hs
  have hinv := inv_reachable hs
  have hremoved : s.shared.removed = [] := by
    apply List.eq_nil_iff_forall_not_mem.mpr
    intro filePath hmem
    obtain ⟨i, hi, -, hremoves, -⟩ := hinv.removed filePath hmem
    exact hremoves (hall i hi)
  have hregistered : s.shared.registered = [] := by
    apply List.eq_nil_iff_forall_not_mem.mpr
    intro i hmem
    have hpath := hinv.registered i hmem
    rw [hremoved] at hpath
    exact List.not_mem_nil hpath
  refine ⟨fun _ _ => ?_, fun _ _ filePath hmem => ?_⟩
  · rw [← hremoved, ← hregistered]
  · rw [hremoved] at hmem
    exact absurd hmem List.not_mem_nil

variable (p) in
/-- What a task does once it has removed its file. -/
def pinRemoved (i : Nat) (buffer : List UInt8) (metas : List (ReadMeta δ)) (host : HostEffects) :
    Except PyError (ReadBuffer δ) × HostEffects :=
  if metas.isEmpty then
    if buffer.length = 0 then (.ok ⟨buffer, buffer.length, [], false⟩, host)
    else (.error (.assertionError s!"buffer nbytes {buffer.length} should be 0"), host)
  else
    match p.pinRaises i with
    | some error => (.error error, host)
    | none => (.ok ⟨buffer, buffer.length, metas, true⟩,
        { host with registered := i :: host.registered })

theorem fileStep_removed (i : Nat) (buffer : List UInt8) (metas : List (ReadMeta δ))
    (host : HostEffects) : p.fileStep i host (.removed buffer metas) =
      .ended (p.pinRemoved i buffer metas host).1 (p.pinRemoved i buffer metas host).2 := by
  simp only [fileStep, pinRemoved]
  split
  · split <;> rfl
  · split <;> rfl

theorem pinRemoved_removed (i : Nat) (buffer : List UInt8) (metas : List (ReadMeta δ))
    (host : HostEffects) : (p.pinRemoved i buffer metas host).2.removed = host.removed := by
  unfold pinRemoved
  split
  · split <;> rfl
  · split <;> rfl

variable (p) in
/-- A task with no other in between. -/
def alone (i : Nat) (host : HostEffects) : Except PyError (ReadBuffer δ) × HostEffects :=
  if p.path i ∈ host.removed then (.error (noSuchFile (p.path i)), host)
  else
    match p.read i with
    | .error error => (.error error, host)
    | .ok (buffer, metas) =>
        match p.removeRaises i with
        | some error => (.error error, host)
        | none => p.pinRemoved i buffer metas
            { host with removed := p.path i :: host.removed }

theorem runs_alone (i : Nat) (host : HostEffects) :
    p.tasks.Runs i host .opening (p.alone i host).1 (p.alone i host).2 := by
  by_cases hgone : p.path i ∈ host.removed
  · rw [alone, if_pos hgone]
    exact .ended (if_pos hgone)
  · rw [alone, if_neg hgone]
    have hopen : p.tasks.step i host .opening = match p.read i with
        | .error error => .ended (.error error) host
        | .ok (buffer, metas) => .going (.parsed buffer metas) host := if_neg hgone
    cases hread : p.read i with
    | error error =>
        rw [hread] at hopen
        exact .ended hopen
    | ok parsed =>
        obtain ⟨buffer, metas⟩ := parsed
        rw [hread] at hopen
        have hparsed : p.tasks.step i host (.parsed buffer metas) = match p.removeRaises i with
            | some error => .ended (.error error) host
            | none => .going (.removed buffer metas)
                { host with removed := p.path i :: host.removed } := if_neg hgone
        cases hremove : p.removeRaises i with
        | some error =>
            rw [hremove] at hparsed
            exact .going hopen (.ended hparsed)
        | none =>
            rw [hremove] at hparsed
            exact .going hopen (.going hparsed (.ended (fileStep_removed i buffer metas _)))

/-- A task that returns has found its file, and removed it. -/
theorem alone_ok {i : Nat} {host : HostEffects} {b : ReadBuffer δ}
    (h : (p.alone i host).1 = .ok b) :
    p.path i ∉ host.removed ∧ p.Succeeds i := by
  unfold alone at h
  split at h
  · cases h
  · next hthere =>
      refine ⟨hthere, ?_⟩
      split at h
      · cases h
      · next buffer metas hread =>
          split at h
          · cases h
          · next hremove =>
              unfold pinRemoved at h
              split at h
              · next hempty =>
                  exact ⟨buffer, metas, hread, hremove, .inl (List.isEmpty_iff.mp hempty)⟩
              · split at h
                · cases h
                · next hpin => exact ⟨buffer, metas, hread, hremove, .inr hpin⟩

/-- A task leaves no file there that it could remove, and brings none back. -/
theorem alone_removed (i : Nat) (host : HostEffects) :
    (∀ filePath ∈ host.removed, filePath ∈ (p.alone i host).2.removed) ∧
      (¬ p.FailsFirst i → p.path i ∈ (p.alone i host).2.removed) := by
  unfold alone
  split
  · next hgone => exact ⟨fun _ hmem => hmem, fun _ => hgone⟩
  · split
    · next error hread =>
        exact ⟨fun _ hmem => hmem, fun hfails => absurd (.inl ⟨error, hread⟩) hfails⟩
    · split
      · next error hremove =>
          exact ⟨fun _ hmem => hmem, fun hfails => absurd (.inr ⟨error, hremove⟩) hfails⟩
      · rw [pinRemoved_removed]
        exact ⟨fun _ hmem => List.mem_cons_of_mem _ hmem, fun _ => List.mem_cons_self⟩

theorem sharedAfter_removed {i k : Nat} (hik : i < k) (hremoves : ¬ p.FailsFirst i) :
    p.path i ∈ (p.tasks.sharedAfter p.alone k).removed := by
  induction k with
  | zero => cases hik
  | succ k ih =>
      rcases Nat.lt_succ_iff_lt_or_eq.mp hik with hlt | rfl
      · exact (alone_removed k _).1 _ (ih hlt)
      · exact (alone_removed i _).2 hremoves

theorem Succeeds.not_failsFirst {i : Nat} (h : p.Succeeds i) : ¬ p.FailsFirst i := by
  obtain ⟨buffer, metas, hread, hremove, -⟩ := h
  rintro (⟨error, herror⟩ | ⟨error, herror⟩)
  · rw [hread] at herror
    cases herror
  · rw [hremove] at herror
    cases herror

/-- Where the files are done one after another and all return, no file is named twice. -/
theorem nodup_of_alone (h : ∀ i < p.files.length, ∃ b,
    (p.alone i (p.tasks.sharedAfter p.alone i)).1 = .ok b) : p.files.Nodup := by
  apply pairwise_of_getElem?
  intro i j x y hij hx hy hxy
  have hj := (List.getElem?_eq_some_iff.mp hy).1
  have hi := Nat.lt_trans hij hj
  obtain ⟨b, hb⟩ := h i hi
  obtain ⟨b', hb'⟩ := h j hj
  have hgone := sharedAfter_removed hij (alone_ok hb).2.not_failsFirst
  have hsame : p.path i = p.path j := by
    rw [getElem?_path hi] at hx
    rw [getElem?_path hj] at hy
    rw [Option.some.inj hx, Option.some.inj hy, hxy]
  exact (alone_ok hb').1 (hsame ▸ hgone)

/-- Where one task removes its file and another fails, or a file is named twice, some order
of the steps ends with an error and with a file that is gone. -/
theorem exists_lost {i : Nat} (hi : i < p.files.length) (hremoves : ¬ p.FailsFirst i)
    (hnot : ¬ (p.files.Nodup ∧ ∀ j < p.files.length, p.Succeeds j)) :
    ∃ s error, p.tasks.pool.Reachable s ∧ s.caller = .raised error ∧
      p.path i ∈ s.shared.removed := by
  have hreach := Tasks.exists_inTurn (T := p.tasks) (f := p.alone)
    (fun j _ host => runs_alone j host) p.files.length (Nat.le_refl _)
  obtain ⟨j, hj, error, herror⟩ : ∃ j < p.files.length, ∃ error,
      (p.alone j (p.tasks.sharedAfter p.alone j)).1 = .error error := by
    by_contra hnone
    have hok : ∀ j < p.files.length, ∃ b,
        (p.alone j (p.tasks.sharedAfter p.alone j)).1 = .ok b := by
      intro j hj
      cases hresult : (p.alone j (p.tasks.sharedAfter p.alone j)).1 with
      | ok b => exact ⟨b, rfl⟩
      | error error => exact absurd ⟨j, hj, error, hresult⟩ hnone
    refine hnot ⟨nodup_of_alone hok, fun j hj => ?_⟩
    obtain ⟨b, hb⟩ := hok j hj
    exact (alone_ok hb).2
  have hfinished : ∀ k < p.files.length, p.tasks.futuresAfter p.alone p.files.length k =
      .finished (p.alone k (p.tasks.sharedAfter p.alone k)).1 := fun k hk => if_pos hk
  have hfailed := (hfinished j hj).trans (congrArg Future.finished herror)
  obtain ⟨error', hsteps⟩ := @Tasks.collecting_raises _ _ _ _ p.tasks ⟨_, _, .collecting []⟩
    (fun k hk => ⟨_, hfinished k hk⟩) j hj error hfailed [] (Nat.zero_le j)
  exact ⟨_, error', hreach.steps hsteps, rfl, sharedAfter_removed hi hremoves⟩

/-- Pinning in place is all or nothing, in every order of the steps, exactly where nothing
stops any task and no file is named twice, or every task ends before it removes its file. -/
theorem allOrNothing_iff (p : InplacePinning δ) :
    p.AllOrNothing ↔ (p.files.Nodup ∧ ∀ i < p.files.length, p.Succeeds i) ∨
      ∀ i < p.files.length, p.FailsFirst i := by
  constructor
  · intro h
    by_contra hnot
    obtain ⟨hsome, hfirst⟩ := not_or.mp hnot
    obtain ⟨i, hi⟩ := not_forall.mp hfirst
    obtain ⟨hi, hremoves⟩ := Classical.not_imp.mp hi
    obtain ⟨s, error, hs, hraised, hgone⟩ := exists_lost hi hremoves hsome
    rw [(h s hs).1 error hraised] at hgone
    exact List.not_mem_nil hgone
  · intro h
    rcases h with ⟨hnodup, hall⟩ | hall
    · exact allOrNothing_of_succeeds hnodup hall
    · exact allOrNothing_of_failsFirst hall

/-! ## Files that are lost -/

/-- A file with one tensor of four bytes. -/
def oneTensor : List UInt8 :=
  let header := headerText [entryText "w" "F32" "1" "0,4"]
  storedBytes header.length header [0, 0, 128, 63]

/-- The header of the second of two files is no JSON. -/
def malformed : InplacePinning DType where
  libs := libraries
  files := ["/dev/shm/a.safetensors", "/dev/shm/b.safetensors"]
  content filePath :=
    if filePath = "/dev/shm/a.safetensors" then some oneTensor else some (storedBytes 1 "-" [])
  readRaises _ := none
  removeRaises _ := none
  pinRaises _ := none

/-- The bytes of the only file cannot be pinned. -/
def unpinnable : InplacePinning DType where
  libs := libraries
  files := ["/dev/shm/a.safetensors"]
  content _ := some oneTensor
  readRaises _ := none
  removeRaises _ := none
  pinRaises _ := some (.runtimeError "pin memory error, error code: 1")

/-- The call has raised, and a file is gone. -/
def Lost (s : CallState δ) : Prop := s.caller.isRaised = true ∧ s.shared.removed ≠ []

instance (s : CallState δ) : Decidable (Lost s) := inferInstanceAs (Decidable (_ ∧ _))

theorem not_allOrNothing {s : CallState δ} (hs : p.tasks.pool.Reachable s) (hlost : Lost s) :
    ¬ p.AllOrNothing := by
  intro hall
  obtain ⟨hraised, hremoved⟩ := hlost
  cases hcaller : s.caller with
  | raised error =>
      rw [(hall s hs).1 error hcaller] at hremoved
      exact hremoved rfl
  | collecting | cancelling | waiting | returned =>
      rw [hcaller] at hraised
      cases hraised

/-- In both calls a file is removed, and the call raises. -/
theorem files_lost : ¬ malformed.AllOrNothing ∧ ¬ unpinnable.AllOrNothing := by
  constructor
  · obtain ⟨s, hs, hlost⟩ := Machine.Reachable.of_run (M := malformed.tasks.pool) (P := Lost)
      (List.replicate 4 (.worker 0) ++ List.replicate 2 (.worker 1) ++ List.replicate 6 .caller)
      (by decide +kernel)
    exact not_allOrNothing hs hlost
  · obtain ⟨s, hs, hlost⟩ := Machine.Reachable.of_run (M := unpinnable.tasks.pool) (P := Lost)
      (List.replicate 4 (.worker 0) ++ List.replicate 4 .caller) (by decide +kernel)
    exact not_allOrNothing hs hlost

/-! ## What is returned -/

/-- The files of a call that are here as they are in the model of registration. -/
structure Describes (p : InplacePinning DType) (host : Host Int) : Prop where
  files : ∀ i < p.files.length, ∃ content file, p.content (p.path i) = some content ∧
    host.safetensors (p.path i) = .ok file ∧ Stores p.libs content file
  pins : ∀ i < p.files.length, p.pinRaises i = host.pinRaises (p.path i)

/-- A call that returns returns what registering the files one by one does. -/
theorem returned_agrees {p : InplacePinning DType} {host : Host Int} (h : p.Describes host)
    {s : CallState DType}
    (hs : p.tasks.pool.Reachable s) {buffers : List (ReadBuffer DType)}
    (hreturned : s.caller = .returned buffers) {i : Nat} {b : ReadBuffer DType}
    (hb : buffers[i]? = some b) (ptr : Nat) :
    Agrees (.ok b) (parseAndPin host ptr (p.path i)) := by
  obtain ⟨hlength, hreturns⟩ := returned_buffers hs hreturned
  have hi : i < p.files.length := hlength ▸ (List.getElem?_eq_some_iff.mp hb).1
  obtain ⟨content, file, hcontent, hfile, hstores⟩ := h.files i hi
  obtain ⟨-, content', hcontent', hread⟩ := hreturns i b hb
  obtain rfl := Option.some.inj (hcontent.symm.trans hcontent')
  have hremove := (parseAndPinFromSafetensors_ok hread).2
  have hagrees := hstores.agrees hfile ptr
  rw [← h.pins i hi, ← hremove, hread] at hagrees
  exact hagrees

end InplacePinning

end CheckpointEngine.Registry
