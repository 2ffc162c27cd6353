/-
  `Launch.SavedMetas`: the metas file that `update_weights` saves and `join` loads, in
  `examples/update.py`.

  Any number of jobs save and load at the same time, every call may raise, also after it
  has done its work, and the power may be lost.  A process that is killed takes no further
  step.
-/
import CheckpointEngine.Foundation.FileSystem
import CheckpointEngine.Foundation.Machine
import CheckpointEngine.Launch.Interchange
import CheckpointEngine.Launch.Splitting
import Mathlib.Data.List.DropRight

set_option autoImplicit false

namespace CheckpointEngine.Launch

open CheckpointEngine.Foundation

/-! ## Paths -/

/-- `os.path.dirname`. -/
def osPathDirname (path : String) : String :=
  let head := path.toList.rdropWhile (· ≠ '/')
  String.ofList (if head.all (· = '/') then head else head.rdropWhile (· = '/'))

/-- `os.path.basename`. -/
def osPathBasename (path : String) : String :=
  String.ofList (path.toList.rtakeWhile (· ≠ '/'))

/-- `os.path.dirname(save_metas_file) or "."`. -/
def dirName (saveMetasFile : String) : String :=
  if osPathDirname saveMetasFile = "" then "." else osPathDirname saveMetasFile

/-- A directory, and a name in it. -/
abbrev Entry := String × String

def entryOf (path : String) : Entry := (dirName path, osPathBasename path)

/-- A name that `tempfile.mkstemp` makes, with the suffix `.tmp`. -/
def temporaryName (random : String) : String := "tmp" ++ random ++ ".tmp"

/-- Jobs that save metas and load them. -/
structure Saves (Job : Type) where
  validators : Validators
  saveMetasFile : Job → String
  /-- `ps.get_metas()` -/
  metas : Job → GlobalMetas
  metas_nodup : ∀ job, ((metas job).map Prod.fst).Nodup
  /-- what `tempfile.mkstemp` has drawn, never twice the same -/
  random : Job → String
  random_injective : Function.Injective random
  loadMetasFile : Job → String
  /-- no metas file has the name of a temporary one -/
  save_ne : ∀ job random, osPathBasename (saveMetasFile job) ≠ temporaryName random
  load_ne : ∀ job random, osPathBasename (loadMetasFile job) ≠ temporaryName random

namespace Saves

variable {Job : Type} (x : Saves Job)

/-- The bytes that a job writes. -/
def data (job : Job) : List UInt8 := x.validators.dumpJson (readMetas (x.metas job))

def saveEntry (job : Job) : Entry := entryOf (x.saveMetasFile job)

def tmpEntry (job : Job) : Entry := (dirName (x.saveMetasFile job), temporaryName (x.random job))

def loadEntry (job : Job) : Entry := entryOf (x.loadMetasFile job)

end Saves

/-! ## Saving -/

/-- Where a job is in the saving. -/
inductive Saving where
  | idle
  /-- `mkstemp` has returned -/
  | opened (fd : Nat)
  /-- in `f.write(data)` and `f.flush()`, with these bytes still to be written -/
  | writing (fd : Nat) (rest : List UInt8)
  | flushed (fd : Nat)
  /-- `os.fsync` has returned, and the `with` block closes the file -/
  | synced (fd : Nat)
  /-- `os.replace` has returned -/
  | replaced
  /-- an exception leaves the `with` block, which still writes what is in the buffer -/
  | unwinding (fd : Nat) (rest : List UInt8)
  /-- in `except BaseException` -/
  | caught
  | returned
  | raised
  /-- `mkstemp` has raised -/
  | refused
  /-- raised before the `try`, or by `os.unlink`, and the temporary file may be left -/
  | leaving
  /-- the power was lost -/
  | gone
  deriving DecidableEq

/-- What happens to a job next. -/
inductive Call where
  | mkstemp
  | fdopen
  | put (count : Nat)
  | flush
  | fsync
  | replace
  | finish
  | raise
  | interrupt
  | close
  | unlink

/-- The inode that the job writes to, while the temporary file names it. -/
def Saving.fd? : Saving → Option Nat
  | .opened fd | .writing fd _ | .flushed fd | .synced fd | .unwinding fd _ => some fd
  | _ => none

/-- A step of `update_weights` from `mkstemp` on. -/
def saveStep (target tmp : Entry) (data : List UInt8) (volume : Volume Entry) :
    Saving → Call → Option (Volume Entry × Saving)
  | .idle, .mkstemp =>
      if volume.names tmp = none then some (volume.create tmp, .opened volume.inodes) else none
  | .idle, .raise => some (volume, .refused)
  | .opened fd, .fdopen => some (volume, .writing fd data)
  | .opened _, .interrupt => some (volume, .leaving)
  | .opened _, .raise => some (volume, .caught)
  | .writing fd rest, .put count =>
      some (volume.append fd (rest.take count), .writing fd (rest.drop count))
  | .writing fd [], .flush => some (volume, .flushed fd)
  | .writing fd rest, .raise => some (volume, .unwinding fd rest)
  | .flushed fd, .fsync => some (volume.sync fd, .synced fd)
  | .flushed fd, .raise => some (volume, .unwinding fd [])
  -- without the temporary file `os.replace` can only raise
  | .synced _, .replace =>
      if volume.names tmp = none then none else some (volume.rename tmp target, .replaced)
  | .synced _, .raise => some (volume, .caught)
  | .replaced, .finish => some (volume, .returned)
  | .replaced, .raise => some (volume, .caught)
  | .unwinding fd rest, .put count =>
      some (volume.append fd (rest.take count), .unwinding fd (rest.drop count))
  | .unwinding _ _, .close => some (volume, .caught)
  -- a file that is no longer there is a `FileNotFoundError`, raised as well
  | .caught, .unlink => some (volume.unlink tmp, .raised)
  | .caught, .raise => some (volume, .leaving)
  | _, _ => none

/-! ## Loading -/

/-- Where a job is in `with open(load_metas_file, "rb") as f`. -/
inductive Loading where
  | idle
  | reading (fd : Nat) (got : List UInt8)
  /-- `f.read()` has returned -/
  | done (data : List UInt8)
  /-- a `FileNotFoundError` -/
  | missing
  | gone
  deriving DecidableEq

inductive LoadCall where
  | openFile
  | read (count : Nat)
  | eof

def loadStep (path : Entry) (volume : Volume Entry) : Loading → LoadCall → Option Loading
  | .idle, .openFile =>
      match volume.names path with
      | none => some .missing
      | some fd => some (.reading fd [])
  | .reading fd got, .read count =>
      some (.reading fd (got ++ ((volume.content fd).drop got.length).take count))
  | .reading fd got, .eof =>
      if (volume.content fd).length ≤ got.length then some (.done got) else none
  | _, _ => none

/-! ## All jobs -/

structure State (Job : Type) where
  volume : Volume Entry
  savers : Job → Saving
  loaders : Job → Loading

inductive Agent (Job : Type) where
  | save (job : Job) (call : Call)
  | load (job : Job) (call : LoadCall)
  | losePower (back : Entry → Nat) (left : Nat → List UInt8)

/-- What has begun is gone with the power. -/
def Saving.lose : Saving → Saving
  | .idle => .idle
  | _ => .gone

def Loading.lose : Loading → Loading
  | .idle => .idle
  | _ => .gone

namespace Saves

variable {Job : Type} [DecidableEq Job] (x : Saves Job)

def step (s : State Job) : Agent Job → Option (State Job)
  | .save job call => do
      let (volume, saving) ←
        saveStep (x.saveEntry job) (x.tmpEntry job) (x.data job) s.volume (s.savers job) call
      return { s with volume, savers := Function.update s.savers job saving }
  | .load job call => do
      let loading ← loadStep (x.loadEntry job) s.volume (s.loaders job) call
      return { s with loaders := Function.update s.loaders job loading }
  | .losePower back left => some
      { volume := s.volume.lose back left
        savers := fun job => (s.savers job).lose
        loaders := fun job => (s.loaders job).lose }

/-- All jobs on a volume. -/
def machine (volume : Volume Entry) : Machine (State Job) (Agent Job) where
  init := ⟨volume, fun _ => .idle, fun _ => .idle⟩
  step := x.step

end Saves

/-! ## What a saving job does to the volume -/

/-- The changes that a job with this temporary file makes in a call. -/
inductive Touch (target tmp : Entry) (data : List UInt8) (volume : Volume Entry) (call : Call) :
    Volume Entry → Prop where
  | nothing : Touch target tmp data volume call volume
  | create : Touch target tmp data volume call (volume.create tmp)
  | append {fd : Nat} (bytes : List UInt8)
      (halone : ∀ key, some fd ∈ volume.entries key → key = tmp) :
      Touch target tmp data volume call (volume.append fd bytes)
  | sync (fd : Nat) : Touch target tmp data volume call (volume.sync fd)
  | rename {fd : Nat} (hcall : call = .replace) (hnames : volume.names tmp = some fd)
      (hsynced : volume.synced fd = true) (hdata : volume.content fd = data) :
      Touch target tmp data volume call (volume.rename tmp target)
  | unlink : Touch target tmp data volume call (volume.unlink tmp)

section Touch

variable {target tmp key : Entry} {data : List UInt8} {volume next : Volume Entry} {call : Call}
  {fd : Nat}

theorem Touch.bounded (h : Touch target tmp data volume call next) (hbounded : volume.Bounded) :
    next.Bounded := by
  cases h with
  | nothing | append | sync => exact hbounded
  | create => exact hbounded.create
  | rename => exact hbounded.rename
  | unlink => exact hbounded.unlink

theorem Touch.kept (h : Touch target tmp data volume call next) (hbounded : volume.Bounded)
    (hkey : key ≠ tmp) (hkept : volume.Kept key) : next.Kept key := by
  cases h with
  | nothing => exact hkept
  | create => exact hkept.create hbounded hkey
  | append bytes halone => exact hkept.append fun hmem => hkey (halone key hmem)
  | sync => exact hkept.sync
  | rename _ hnames hsynced => exact hkept.rename hkey hnames hsynced
  | unlink => exact hkept.unlink hkey

/-- What is read under another entry changes only by the replacing of `target`. -/
theorem Touch.versions (h : Touch target tmp data volume call next) (hbounded : volume.Bounded)
    (hkey : key ≠ tmp) :
    next.versions key = volume.versions key ∨ call = .replace ∧ key = target ∧
      next.versions key = some data :: volume.versions key := by
  cases h with
  | nothing | sync => exact .inl rfl
  | create => exact .inl (Volume.versions_create hbounded hkey)
  | append bytes halone => exact .inl (Volume.versions_append fun hmem => hkey (halone key hmem))
  | unlink => exact .inl (Volume.versions_unlink hkey)
  | rename hcall hnames _ hdata =>
      rcases eq_or_ne key target with rfl | hne
      · exact .inr ⟨hcall, rfl, hdata ▸ Volume.versions_rename hkey hnames⟩
      · exact .inl (Volume.versions_rename_of_ne hkey hne)

/-- An inode under another entry keeps its contents. -/
theorem Touch.content (h : Touch target tmp data volume call next) (hbounded : volume.Bounded)
    (hkey : key ≠ tmp) (hfd : some fd ∈ volume.entries key) :
    next.content fd = volume.content fd ∧ (volume.synced fd = true → next.synced fd = true) := by
  cases h with
  | nothing | rename | unlink => exact ⟨rfl, id⟩
  | create =>
      have hlt := hbounded key fd hfd
      exact ⟨Volume.content_create_of_lt hlt, fun h => (Volume.synced_create_of_lt hlt).trans h⟩
  | @append other bytes halone =>
      have hne : fd ≠ other := fun heq => hkey (halone key (heq ▸ hfd))
      exact ⟨Volume.content_append_of_ne hne, fun h => (Volume.synced_append_of_ne hne).trans h⟩
  | sync => exact ⟨rfl, Volume.synced_sync⟩

theorem Touch.names (h : Touch target tmp data volume call next) (hkey : key ≠ tmp)
    (htarget : key ≠ target) : next.names key = volume.names key := by
  cases h with
  | nothing | append | sync => rfl
  | create | unlink => exact Volume.names_setName_of_ne hkey
  | rename =>
      exact (Volume.names_setName_of_ne hkey).trans (Volume.names_setName_of_ne htarget)

theorem Touch.entries_sub (h : Touch target tmp data volume call next) (hkey : key ≠ tmp)
    (hfd : some fd ∈ volume.entries key) : some fd ∈ next.entries key := by
  cases h with
  | nothing | append | sync => exact hfd
  | create => rwa [Volume.entries_create_of_ne hkey]
  | unlink => rwa [Volume.entries_unlink_of_ne hkey]
  | rename =>
      rcases eq_or_ne key target with rfl | hne
      · rw [Volume.entries_rename_target hkey]
        exact List.mem_cons_of_mem _ hfd
      · rwa [Volume.entries_rename_of_ne hkey hne]

/-- An inode that no entry but `key` has named is named by no other. -/
theorem Touch.alone (h : Touch target tmp data volume call next) (hbounded : volume.Bounded)
    (hne : target ≠ tmp) (hkey : key ≠ tmp) (hfd : some fd ∈ volume.entries key)
    (halone : ∀ other, some fd ∈ volume.entries other → other = key) :
    ∀ other, some fd ∈ next.entries other → other = key := by
  intro other hother
  have htmp : some fd ∉ volume.entries tmp := fun hmem => hkey (halone tmp hmem).symm
  cases h with
  | nothing | append | sync => exact halone other hother
  | create =>
      rcases eq_or_ne other tmp with rfl | hdiff
      · rw [Volume.entries_create_self, List.mem_cons] at hother
        cases hother with
        | inl heq => exact absurd (hbounded key fd hfd) (by simp [Option.some.inj heq])
        | inr hmem => exact absurd hmem htmp
      · rw [Volume.entries_create_of_ne hdiff] at hother
        exact halone other hother
  | rename =>
      rcases eq_or_ne other tmp with rfl | hdiff
      · rw [Volume.entries_rename_source hne, List.mem_cons] at hother
        exact absurd (hother.resolve_left fun h => by cases h) htmp
      rcases eq_or_ne other target with rfl | htarget
      · rw [Volume.entries_rename_target hne, List.mem_cons] at hother
        cases hother with
        | inl heq => exact absurd (List.mem_cons.mpr (.inl heq)) htmp
        | inr hmem => exact halone other hmem
      · rw [Volume.entries_rename_of_ne hdiff htarget] at hother
        exact halone other hother
  | unlink =>
      rcases eq_or_ne other tmp with rfl | hdiff
      · rw [Volume.entries_unlink_self, List.mem_cons] at hother
        exact absurd (hother.resolve_left fun h => by cases h) htmp
      · rw [Volume.entries_unlink_of_ne hdiff] at hother
        exact halone other hother

end Touch

/-! ## What holds for a saving job -/

/-- How far the temporary file has been written. -/
def Saving.Written (data : List UInt8) (volume : Volume Entry) : Saving → Prop
  | .opened fd => volume.content fd = []
  | .writing fd rest => volume.content fd ++ rest = data
  | .flushed fd => volume.content fd = data
  | .synced fd => volume.content fd = data ∧ volume.synced fd = true
  | _ => True

/-- The target has been replaced, and no exception is on its way. -/
def Saving.Placed : Saving → Prop
  | .replaced | .returned => True
  | _ => False

/-- The temporary file has been renamed or removed. -/
def Saving.Cleared : Saving → Prop
  | .replaced | .returned | .raised => True
  | _ => False

structure Sound (target tmp : Entry) (data : List UInt8) (volume : Volume Entry)
    (saving : Saving) : Prop where
  /-- the temporary file is the job's own -/
  held : ∀ fd, saving.fd? = some fd → volume.names tmp = some fd
  alone : ∀ fd, saving.fd? = some fd → ∀ key, some fd ∈ volume.entries key → key = tmp
  written : saving.Written data volume
  cleared : saving.Cleared → volume.names tmp = none
  placed : saving.Placed → some data ∈ volume.versions target

section Sound

variable {target tmp : Entry} {data : List UInt8} {volume next : Volume Entry}
  {saving saving' : Saving}

theorem Saving.Placed.cleared (h : saving.Placed) : saving.Cleared := by
  cases saving with
  | replaced | returned => trivial
  | _ => exact h.elim

/-- A job that holds no file, and has not replaced the target. -/
theorem Sound.nothing (hfd : saving.fd? = none) (hwritten : saving.Written data volume)
    (hcleared : ¬ saving.Cleared) :
    Sound target tmp data volume saving where
  held := fun fd h => by rw [hfd] at h; cases h
  alone := fun fd h => by rw [hfd] at h; cases h
  written := hwritten
  cleared := fun h => absurd h hcleared
  placed := fun h => absurd h.cleared hcleared

/-- The job goes on with the file it holds. -/
theorem Sound.hold {fd : Nat} (h : Sound target tmp data volume saving)
    (hfd : saving.fd? = some fd) (hfd' : saving'.fd? = some fd)
    (hnames : next.names = volume.names) (hearlier : next.earlier = volume.earlier)
    (hwritten : saving'.Written data next) (hcleared : ¬ saving'.Cleared) :
    Sound target tmp data next saving' where
  held := fun other hother => by
    obtain rfl : fd = other := Option.some.inj (hfd'.symm.trans hother)
    rw [hnames, h.held fd hfd]
  alone := fun other hother key hkey => by
    obtain rfl : fd = other := Option.some.inj (hfd'.symm.trans hother)
    refine h.alone fd hfd key ?_
    rwa [Volume.entries, hnames, hearlier] at hkey
  written := hwritten
  cleared := fun h => absurd h hcleared
  placed := fun h => absurd h.cleared hcleared

theorem Sound.opened (hbounded : volume.Bounded) :
    Sound target tmp data (volume.create tmp) (.opened volume.inodes) where
  held := fun fd hfd => by
    obtain rfl := Option.some.inj hfd
    exact Volume.names_create_self
  alone := fun fd hfd key hkey => by
    obtain rfl := Option.some.inj hfd
    by_contra hdiff
    rw [Volume.entries_create_of_ne hdiff] at hkey
    exact hbounded.fresh hkey
  written := Volume.content_create_self
  cleared := False.elim
  placed := False.elim

/-- The whole file takes the place of the target. -/
theorem Sound.replaced {fd : Nat} (h : Sound target tmp data volume (.synced fd))
    (hne : target ≠ tmp) : Sound target tmp data (volume.rename tmp target) .replaced where
  held := fun other hother => by cases hother
  alone := fun other hother => by cases hother
  written := trivial
  cleared := fun _ => Volume.names_setName_self
  placed := fun _ => by
    rw [Volume.versions_rename hne (h.held fd rfl), h.written.1]
    exact List.mem_cons_self

theorem Sound.raised : Sound target tmp data (volume.unlink tmp) .raised where
  held := fun fd hfd => by cases hfd
  alone := fun fd hfd => by cases hfd
  written := trivial
  cleared := fun _ => Volume.names_setName_self
  placed := False.elim

/-- A step of a job keeps to its temporary file and the target. -/
theorem Sound.step {call : Call} (h : Sound target tmp data volume saving)
    (hbounded : volume.Bounded) (hne : target ≠ tmp)
    (hstep : saveStep target tmp data volume saving call = some (next, saving')) :
    Touch target tmp data volume call next ∧ Sound target tmp data next saving' := by
  have hput : ∀ {fd count} {rest : List UInt8},
      (volume.append fd (rest.take count)).content fd ++ rest.drop count =
        volume.content fd ++ rest := by
    intro fd count rest
    rw [Volume.content_append_self, List.append_assoc, List.take_append_drop]
  unfold saveStep at hstep
  split at hstep
  case h_1 =>
    split at hstep
    · obtain ⟨rfl, rfl⟩ := Prod.mk.inj (Option.some.inj hstep)
      exact ⟨.create, .opened hbounded⟩
    · cases hstep
  case h_11 fd =>
    split at hstep
    · cases hstep
    · obtain ⟨rfl, rfl⟩ := Prod.mk.inj (Option.some.inj hstep)
      exact ⟨.rename rfl (h.held fd rfl) h.written.2 h.written.1, h.replaced hne⟩
  case h_19 => cases hstep
  all_goals obtain ⟨rfl, rfl⟩ := Prod.mk.inj (Option.some.inj hstep)
  case h_2 | h_4 | h_5 | h_12 | h_14 | h_16 | h_18 => exact ⟨.nothing, .nothing rfl trivial id⟩
  case h_3 fd =>
    refine ⟨.nothing, h.hold rfl rfl rfl rfl ?_ id⟩
    change volume.content fd ++ data = data
    rw [show volume.content fd = [] from h.written, List.nil_append]
  case h_6 fd rest count =>
    exact ⟨.append _ (h.alone fd rfl), h.hold rfl rfl rfl rfl (hput.trans h.written) id⟩
  case h_7 fd =>
    refine ⟨.nothing, h.hold rfl rfl rfl rfl ?_ id⟩
    exact (List.append_nil _).symm.trans h.written
  case h_8 => exact ⟨.nothing, h.hold rfl rfl rfl rfl trivial id⟩
  case h_9 fd =>
    exact ⟨.sync fd, h.hold rfl rfl rfl rfl ⟨h.written, Volume.synced_sync_self⟩ id⟩
  case h_10 => exact ⟨.nothing, h.hold rfl rfl rfl rfl trivial id⟩
  case h_13 =>
    refine ⟨.nothing, ?_, ?_, trivial, fun _ => h.cleared trivial, fun _ => h.placed trivial⟩
    · intro fd hfd
      cases hfd
    · intro fd hfd
      cases hfd
  case h_15 fd rest count =>
    exact ⟨.append _ (h.alone fd rfl), h.hold rfl rfl rfl rfl trivial id⟩
  case h_17 => exact ⟨.unlink, .raised⟩

/-- What another job does to the volume leaves what holds for this one. -/
theorem Sound.frame {target' tmp' : Entry} {data' : List UInt8} {call : Call}
    (h : Sound target tmp data volume saving) (hbounded : volume.Bounded)
    (htouch : Touch target' tmp' data' volume call next) (htmp : tmp ≠ tmp')
    (htarget' : target' ≠ tmp) (htarget : target ≠ tmp') (hne : target' ≠ tmp') :
    Sound target tmp data next saving := by
  have hnames : next.names tmp = volume.names tmp := htouch.names htmp htarget'.symm
  have hmem : ∀ fd, saving.fd? = some fd → some fd ∈ volume.entries tmp := fun fd hfd =>
    List.mem_cons.mpr (.inl (h.held fd hfd).symm)
  have hcontent : ∀ fd, saving.fd? = some fd → next.content fd = volume.content fd ∧
      (volume.synced fd = true → next.synced fd = true) := fun fd hfd =>
    htouch.content hbounded htmp (hmem fd hfd)
  constructor
  · exact fun fd hfd => hnames.trans (h.held fd hfd)
  · exact fun fd hfd => htouch.alone hbounded hne htmp (hmem fd hfd) (h.alone fd hfd)
  · have hwritten := h.written
    cases saving with
    | opened fd => exact (hcontent fd rfl).1.trans hwritten
    | writing fd rest => exact (congrArg (· ++ rest) (hcontent fd rfl).1).trans hwritten
    | flushed fd => exact (hcontent fd rfl).1.trans hwritten
    | synced fd => exact ⟨(hcontent fd rfl).1.trans hwritten.1, (hcontent fd rfl).2 hwritten.2⟩
    | _ => trivial
  · exact fun hcleared => hnames.trans (h.cleared hcleared)
  · intro hplaced
    cases htouch.versions hbounded htarget with
    | inl heq => exact heq ▸ h.placed hplaced
    | inr hreplaced =>
        rw [hreplaced.2.2]
        exact List.mem_cons_of_mem _ (h.placed hplaced)

end Sound

/-! ## What holds for all jobs -/

namespace Saves

variable {Job : Type} (x : Saves Job)

/-- An entry that is not a temporary one. -/
def Lasting (key : Entry) : Prop := ∀ job, key ≠ x.tmpEntry job

structure Inv (s : State Job) : Prop where
  bounded : s.volume.Bounded
  kept : ∀ key, x.Lasting key → s.volume.Kept key
  sound : ∀ job, Sound (x.saveEntry job) (x.tmpEntry job) (x.data job) s.volume (s.savers job)
  reading : ∀ job fd got, s.loaders job = .reading fd got →
    some fd ∈ s.volume.entries (x.loadEntry job) ∧ got <+: s.volume.content fd

theorem lasting_saveEntry (job : Job) : x.Lasting (x.saveEntry job) := fun _ heq =>
  x.save_ne job _ (congrArg Prod.snd heq)

theorem lasting_loadEntry (job : Job) : x.Lasting (x.loadEntry job) := fun _ heq =>
  x.load_ne job _ (congrArg Prod.snd heq)

theorem tmpEntry_ne {job other : Job} (hne : job ≠ other) : x.tmpEntry job ≠ x.tmpEntry other := by
  intro heq
  have hname : temporaryName (x.random job) = temporaryName (x.random other) :=
    congrArg Prod.snd heq
  rw [temporaryName, temporaryName, String.append_left_inj, String.append_right_inj] at hname
  exact hne (x.random_injective hname)

end Saves

section Run

variable {Job : Type} [DecidableEq Job] {x : Saves Job} {s t : State Job}

theorem Saves.Inv.init {volume : Volume Entry} (hbounded : volume.Bounded)
    (hkept : ∀ key, x.Lasting key → volume.Kept key) : x.Inv (x.machine volume).init where
  bounded := hbounded
  kept := hkept
  sound := fun _ => .nothing rfl trivial id
  reading := fun _ _ _ h => by cases h

/-- What a step of a saving job changes. -/
theorem Saves.Inv.saves {job : Job} {call : Call} (h : x.Inv s)
    (hstep : x.step s (.save job call) = some t) :
    Touch (x.saveEntry job) (x.tmpEntry job) (x.data job) s.volume call t.volume ∧
      t.loaders = s.loaders ∧
      ∀ other, Sound (x.saveEntry other) (x.tmpEntry other) (x.data other) t.volume
        (t.savers other) := by
  obtain ⟨result, hsave, hresult⟩ := Option.bind_eq_some_iff.mp hstep
  obtain rfl := Option.some.inj hresult
  obtain ⟨htouch, hsound⟩ :=
    (h.sound job).step h.bounded (x.lasting_saveEntry job job) hsave
  refine ⟨htouch, rfl, fun other => ?_⟩
  rcases eq_or_ne other job with rfl | hne
  · change Sound _ _ _ _ (Function.update s.savers other _ other)
    rw [Function.update_self]
    exact hsound
  · change Sound _ _ _ _ (Function.update s.savers job _ other)
    rw [Function.update_of_ne hne]
    exact (h.sound other).frame h.bounded htouch (x.tmpEntry_ne hne)
      (x.lasting_saveEntry job other) (x.lasting_saveEntry other job)
      (x.lasting_saveEntry job job)

/-- What is read of a file stays the beginning of it. -/
theorem loadStep_reading {path : Entry} {volume : Volume Entry} {loading loading' : Loading}
    {call : LoadCall} (hstep : loadStep path volume loading call = some loading')
    (hbefore : ∀ fd got, loading = .reading fd got →
      some fd ∈ volume.entries path ∧ got <+: volume.content fd) :
    ∀ fd got, loading' = .reading fd got →
      some fd ∈ volume.entries path ∧ got <+: volume.content fd := by
  intro fd got hreading
  subst hreading
  unfold loadStep at hstep
  split at hstep
  case h_1 =>
    split at hstep
    · cases hstep
    · obtain ⟨rfl, rfl⟩ := Loading.reading.inj (Option.some.inj hstep)
      exact ⟨List.mem_cons.mpr (.inl (Eq.symm ‹_›)), List.nil_prefix⟩
  case h_2 fd' got' count =>
    obtain ⟨rfl, rfl⟩ := Loading.reading.inj (Option.some.inj hstep)
    obtain ⟨hmem, rest, hrest⟩ := hbefore fd' got' rfl
    refine ⟨hmem, rest.drop count, ?_⟩
    rw [← hrest, List.drop_left, List.append_assoc, List.take_append_drop]
  case h_3 =>
    split at hstep
    · cases hstep
    · cases hstep
  case h_4 => cases hstep

theorem Saves.Inv.step {agent : Agent Job} (h : x.Inv s) (hstep : x.step s agent = some t) :
    x.Inv t := by
  cases agent with
  | save job call =>
      obtain ⟨htouch, hloaders, hsound⟩ := h.saves hstep
      refine ⟨htouch.bounded h.bounded, fun key hkey => ?_, hsound, fun loader fd got hgot => ?_⟩
      · exact htouch.kept h.bounded (hkey job) (h.kept key hkey)
      · rw [hloaders] at hgot
        obtain ⟨hmem, hbegin⟩ := h.reading loader fd got hgot
        have hkey := x.lasting_loadEntry loader job
        exact ⟨htouch.entries_sub hkey hmem, (htouch.content h.bounded hkey hmem).1.symm ▸ hbegin⟩
  | load job call =>
      obtain ⟨loading, hload, hresult⟩ := Option.bind_eq_some_iff.mp hstep
      obtain rfl := Option.some.inj hresult
      refine ⟨h.bounded, h.kept, h.sound, fun loader fd got hgot => ?_⟩
      change Function.update s.loaders job loading loader = _ at hgot
      rcases eq_or_ne loader job with rfl | hne
      · rw [Function.update_self] at hgot
        exact loadStep_reading hload (h.reading loader) fd got hgot
      · rw [Function.update_of_ne hne] at hgot
        exact h.reading loader fd got hgot
  | losePower back left =>
      obtain rfl := Option.some.inj hstep
      refine ⟨h.bounded.lose, fun _ _ => Volume.kept_lose, fun job => ?_, fun job fd got hgot => ?_⟩
      · change Sound _ _ _ _ (s.savers job).lose
        cases s.savers job with
        | idle => exact .nothing rfl trivial id
        | _ => exact .nothing rfl trivial id
      · change (s.loaders job).lose = _ at hgot
        cases hloading : s.loaders job <;> rw [hloading] at hgot <;> cases hgot

theorem Saves.Inv.of_reachable {volume : Volume Entry} (hbounded : volume.Bounded)
    (hkept : ∀ key, x.Lasting key → volume.Kept key) (h : (x.machine volume).Reachable s) :
    x.Inv s :=
  h.invariant (Inv.init hbounded hkept) fun _ _ _ _ hinv hstep => hinv.step hstep

/-- A file is replaced by the whole metas of one job, or a loss of power brings one of its
versions back; nothing else changes what is read of it. -/
theorem Saves.Inv.versions_step {agent : Agent Job} (h : x.Inv s) (hstep : x.step s agent = some t)
    {key : Entry} (hkey : x.Lasting key) :
    t.volume.versions key = s.volume.versions key ∨
      (∃ job, agent = .save job .replace ∧ key = x.saveEntry job ∧
        t.volume.versions key = some (x.data job) :: s.volume.versions key) ∨
      ∃ back left, agent = .losePower back left ∧
        ∃ version ∈ s.volume.versions key, t.volume.versions key = [version] := by
  cases agent with
  | save job call =>
      obtain ⟨htouch, -, -⟩ := h.saves hstep
      cases htouch.versions h.bounded (hkey job) with
      | inl heq => exact .inl heq
      | inr hreplaced =>
          obtain ⟨rfl, hentry, hversions⟩ := hreplaced
          exact .inr (.inl ⟨job, rfl, hentry, hversions⟩)
  | load job call =>
      obtain ⟨loading, -, hresult⟩ := Option.bind_eq_some_iff.mp hstep
      obtain rfl := Option.some.inj hresult
      exact .inl rfl
  | losePower back left =>
      obtain rfl := Option.some.inj hstep
      exact .inr (.inr ⟨back, left, rfl, Volume.versions_lose (h.kept key hkey)⟩)

/-- What a loading job makes of a file that was like this when it opened it. -/
def Loading.Sees (version : Option (List UInt8)) (volume : Volume Entry) : Loading → Prop
  | .idle => False
  | .reading fd _ => version = some (volume.content fd)
  | .done data => version = some data
  | .missing => version = none
  | .gone => True

theorem Saves.sees_open {job : Job} (hstep : x.step s (.load job .openFile) = some t) :
    (t.loaders job).Sees (s.volume.read (x.loadEntry job)) t.volume := by
  obtain ⟨loading, hload, hresult⟩ := Option.bind_eq_some_iff.mp hstep
  obtain rfl := Option.some.inj hresult
  change (Function.update s.loaders job loading job).Sees _ _
  rw [Function.update_self, Volume.read]
  cases hloading : s.loaders job with
  | idle =>
      rw [hloading] at hload
      cases hnames : s.volume.names (x.loadEntry job) with
      | none =>
          rw [loadStep, hnames] at hload
          obtain rfl := Option.some.inj hload
          rfl
      | some fd =>
          rw [loadStep, hnames] at hload
          obtain rfl := Option.some.inj hload
          rfl
  | _ =>
      rw [hloading] at hload
      cases hload

/-- The file that a job has opened stays as it is, whatever takes its place. -/
theorem Saves.Inv.sees_step {agent : Agent Job} {job : Job} {version : Option (List UInt8)}
    (h : x.Inv s) (hstep : x.step s agent = some t)
    (hsees : (s.loaders job).Sees version s.volume) :
    (t.loaders job).Sees version t.volume := by
  cases agent with
  | save saver call =>
      obtain ⟨htouch, hloaders, -⟩ := h.saves hstep
      rw [hloaders]
      cases hloading : s.loaders job with
      | reading fd got =>
          rw [hloading] at hsees
          have hmem := (h.reading job fd got hloading).1
          have hcontent := (htouch.content h.bounded (x.lasting_loadEntry job saver) hmem).1
          exact Eq.trans hsees (congrArg some hcontent.symm)
      | _ =>
          rw [hloading] at hsees
          exact hsees
  | load loader call =>
      obtain ⟨loading, hload, hresult⟩ := Option.bind_eq_some_iff.mp hstep
      obtain rfl := Option.some.inj hresult
      change (Function.update s.loaders loader loading job).Sees _ _
      rcases eq_or_ne job loader with rfl | hne
      · rw [Function.update_self]
        cases hloading : s.loaders job with
        | reading fd got =>
            obtain ⟨-, hbegin⟩ := h.reading job fd got hloading
            rw [hloading] at hload hsees
            cases call with
            | openFile => cases hload
            | read count =>
                obtain rfl := Option.some.inj hload
                exact hsees
            | eof =>
                rw [loadStep] at hload
                split at hload
                · obtain rfl := Option.some.inj hload
                  rw [hbegin.eq_of_length_le ‹_›]
                  exact hsees
                · cases hload
        | idle =>
            rw [hloading] at hsees
            exact hsees.elim
        | _ =>
            rw [hloading] at hload
            cases hload
      · rw [Function.update_of_ne hne]
        exact hsees
  | losePower back left =>
      obtain rfl := Option.some.inj hstep
      change ((s.loaders job).lose).Sees _ _
      cases hloading : s.loaders job with
      | idle =>
          rw [hloading] at hsees
          exact hsees.elim
      | _ => trivial

theorem Saves.Inv.sees_steps {volume : Volume Entry} {job : Job}
    {version : Option (List UInt8)} (h : x.Inv s) (hsteps : (x.machine volume).Steps s t)
    (hsees : (s.loaders job).Sees version s.volume) :
    (t.loaders job).Sees version t.volume := by
  have hboth : x.Inv t ∧ (t.loaders job).Sees version t.volume := by
    induction hsteps with
    | refl => exact ⟨h, hsees⟩
    | tail _ hnext ih =>
        obtain ⟨agent, hstep⟩ := hnext
        exact ⟨ih.1.step hstep, ih.1.sees_step hstep ih.2⟩
  exact hboth.2

/-- Every version of a file was there at the beginning or is the metas of one job. -/
theorem Saves.version_of_reachable {volume : Volume Entry} (hbounded : volume.Bounded)
    (hkept : ∀ key, x.Lasting key → volume.Kept key) (h : (x.machine volume).Reachable s)
    {key : Entry} (hkey : x.Lasting key) :
    ∀ data, some data ∈ s.volume.versions key →
      some data ∈ volume.versions key ∨ ∃ job, x.saveEntry job = key ∧ data = x.data job := by
  induction h with
  | refl => exact fun data hdata => .inl hdata
  | tail hu hnext ih =>
      intro data hdata
      obtain ⟨agent, hstep⟩ := hnext
      cases (Inv.of_reachable hbounded hkept hu).versions_step hstep hkey with
      | inl heq => exact ih data (heq ▸ hdata)
      | inr hchange =>
          cases hchange with
          | inl hreplaced =>
              obtain ⟨job, -, rfl, hversions⟩ := hreplaced
              rw [hversions, List.mem_cons] at hdata
              cases hdata with
              | inl heq => exact .inr ⟨job, rfl, Option.some.inj heq⟩
              | inr hmem => exact ih data hmem
          | inr hlost =>
              obtain ⟨_, _, -, version, hmem, hversions⟩ := hlost
              rw [hversions, List.mem_singleton] at hdata
              exact ih data (hdata ▸ hmem)

/-- The state but for one job and the volume. -/
def State.saved (s : State Job) (job : Job) (volume : Volume Entry)
    (saving : Saving) : State Job :=
  { s with volume, savers := Function.update s.savers job saving }

theorem Saves.next_saved {volume before after : Volume Entry} {saving saving' : Saving} {job : Job}
    {call : Call}
    (h : saveStep (x.saveEntry job) (x.tmpEntry job) (x.data job) before saving call =
      some (after, saving')) :
    (x.machine volume).Next (s.saved job before saving) (s.saved job after saving') := by
  refine ⟨.save job call, ?_⟩
  change (saveStep _ _ _ before (Function.update s.savers job saving job) call >>= _) = _
  rw [Function.update_self, h]
  simp [State.saved]

/-- From the temporary file on, a job that nobody interferes with saves its metas. -/
theorem Saves.saves_opened {volume opened : Volume Entry} {job : Job} {fd : Nat}
    (hnames : opened.names (x.tmpEntry job) = some fd) (hempty : opened.content fd = []) :
    ∃ next, (x.machine volume).Steps (s.saved job opened (.opened fd))
        (s.saved job next .returned) ∧
      next.read (x.saveEntry job) = some (x.data job) ∧
      ∀ key, key ≠ x.saveEntry job → key ≠ x.tmpEntry job →
        next.names key = opened.names key := by
  have hne := x.lasting_saveEntry job job
  obtain ⟨synced, hsynced⟩ : ∃ v, v = (opened.append fd (x.data job)).sync fd := ⟨_, rfl⟩
  have hnamed : synced.names (x.tmpEntry job) = some fd := hsynced ▸ hnames
  have hcontent : synced.content fd = x.data job := by
    rw [hsynced]
    exact Volume.content_append_self.trans (by rw [hempty, List.nil_append])
  have hput : saveStep (x.saveEntry job) (x.tmpEntry job) (x.data job) opened
      (.writing fd (x.data job)) (.put (x.data job).length) =
        some (opened.append fd (x.data job), .writing fd []) := by
    rw [saveStep, List.take_length, List.drop_length]
  have hreplace : saveStep (x.saveEntry job) (x.tmpEntry job) (x.data job) synced (.synced fd)
      .replace = some (synced.rename (x.tmpEntry job) (x.saveEntry job), .replaced) := by
    rw [saveStep, hnamed]
    rfl
  refine ⟨synced.rename (x.tmpEntry job) (x.saveEntry job), ?_, ?_, fun key htarget htmp => ?_⟩
  · refine .head (@next_saved _ _ x s volume opened opened _ (.writing fd (x.data job)) job
      .fdopen rfl) ?_
    refine .head (@next_saved _ _ x s volume _ _ _ _ job _ hput) ?_
    refine .head (@next_saved _ _ x s volume _ _ (.writing fd []) (.flushed fd) job .flush rfl) ?_
    refine .head (@next_saved _ _ x s volume _ synced (.flushed fd) (.synced fd) job .fsync
      (by rw [hsynced]; rfl)) ?_
    refine .head (@next_saved _ _ x s volume _ _ _ _ job _ hreplace) ?_
    exact .single (@next_saved _ _ x s volume _ _ .replaced .returned job .finish rfl)
  · have htarget : (synced.rename (x.tmpEntry job) (x.saveEntry job)).names (x.saveEntry job) =
        some fd := by
      rw [Volume.rename, Volume.names_setName_of_ne hne, Volume.names_setName_self, hnamed]
    rw [Volume.read, htarget]
    exact congrArg some hcontent
  · rw [Volume.rename, Volume.names_setName_of_ne htmp, Volume.names_setName_of_ne htarget, hsynced]
    rfl

/-- A job that nobody interferes with saves its metas, and leaves all other names alone. -/
theorem Saves.saves_alone {volume : Volume Entry} {job : Job} (hidle : s.savers job = .idle)
    (hnames : s.volume.names (x.tmpEntry job) = none) :
    ∃ t, (x.machine volume).Steps s t ∧ t.savers job = .returned ∧ t.loaders = s.loaders ∧
      t.volume.read (x.saveEntry job) = some (x.data job) ∧
      (∀ other, other ≠ job → t.savers other = s.savers other) ∧
      ∀ key, key ≠ x.saveEntry job → key ≠ x.tmpEntry job →
        t.volume.names key = s.volume.names key := by
  have hstart : s = s.saved job s.volume .idle := by
    rw [State.saved, ← hidle, Function.update_eq_self]
  have hfirst : (x.machine volume).Next s
      (s.saved job (s.volume.create (x.tmpEntry job)) (.opened s.volume.inodes)) := by
    have hcreate := @Saves.next_saved _ _ x s volume s.volume (s.volume.create (x.tmpEntry job))
      .idle (.opened s.volume.inodes) job .mkstemp (by rw [saveStep, if_pos hnames])
    rwa [← hstart] at hcreate
  obtain ⟨next, hsteps, hread, hothers⟩ := @Saves.saves_opened _ _ x s volume _ job _
    (@Volume.names_create_self _ s.volume (x.tmpEntry job) _) Volume.content_create_self
  refine ⟨s.saved job next .returned, .head hfirst hsteps, Function.update_self job _ _, rfl,
    hread, ?_, ?_⟩
  · intro other hne
    exact Function.update_of_ne hne _ _
  · intro key htarget htmp
    rw [State.saved, hothers key htarget htmp, Volume.names_create_of_ne htmp]

/-- The state but for one loading job. -/
def State.loaded (s : State Job) (job : Job) (loading : Loading) : State Job :=
  { s with loaders := Function.update s.loaders job loading }

theorem Saves.next_loaded {job : Job} {call : LoadCall} {loading loading' : Loading}
    (h : loadStep (x.loadEntry job) s.volume loading call = some loading') :
    x.step (s.loaded job loading) (.load job call) = some (s.loaded job loading') := by
  change (loadStep _ s.volume (Function.update s.loaders job loading job) call >>= _) = _
  rw [Function.update_self, h]
  simp [State.loaded]

/-- A job that has opened a file reads it to the end. -/
theorem Saves.reads_on {volume : Volume Entry} {job : Job} {fd : Nat}
    (hreading : s.loaders job = .reading fd []) :
    ∃ u, (x.machine volume).Steps s u ∧ u.loaders job = .done (s.volume.content fd) := by
  have hstart : s = s.loaded job (.reading fd []) := by
    rw [State.loaded, ← hreading, Function.update_eq_self]
  have hget : loadStep (x.loadEntry job) s.volume (.reading fd [])
      (.read (s.volume.content fd).length) = some (.reading fd (s.volume.content fd)) := by
    rw [loadStep, List.nil_append, List.length_nil, List.drop_zero, List.take_length]
  have hend : loadStep (x.loadEntry job) s.volume (.reading fd (s.volume.content fd)) .eof =
      some (.done (s.volume.content fd)) := by
    rw [loadStep, if_pos (Nat.le_refl _)]
  have hread : (x.machine volume).Next s (s.loaded job (.reading fd (s.volume.content fd))) := by
    have hnext := next_loaded hget
    rw [← hstart] at hnext
    exact ⟨.load job (.read (s.volume.content fd).length), hnext⟩
  exact ⟨_, .head hread (.single ⟨.load job .eof, next_loaded hend⟩),
    Function.update_self job _ _⟩

end Run

/-- **A metas file is always whole.**  Whatever the saving and loading jobs do at the same
time, and whatever raises: a step changes what is read of a metas file by replacing it with
the whole metas of one job, or brings back one of its versions when the power is lost.  A job
that loads it reads the version that was there when it opened it: the one from before, or the
metas of one job, which are then accepted as such.  A job that returns has saved its metas,
and one that has gone through its `except` has left no temporary file. -/
theorem metas_file_whole {Job : Type} [DecidableEq Job] (x : Saves Job) {volume : Volume Entry}
    (hbounded : volume.Bounded) (hkept : ∀ key, x.Lasting key → volume.Kept key) {s : State Job}
    (h : (x.machine volume).Reachable s) :
    (∀ agent t, x.step s agent = some t → ∀ key, x.Lasting key →
      t.volume.versions key = s.volume.versions key ∨
        (∃ job, agent = .save job .replace ∧ key = x.saveEntry job ∧
          t.volume.versions key = some (x.data job) :: s.volume.versions key) ∨
        ∃ back left, agent = .losePower back left ∧
          ∃ version ∈ s.volume.versions key, t.volume.versions key = [version]) ∧
    (∀ job t u, x.step s (.load job .openFile) = some t → (x.machine volume).Steps t u →
      (u.loaders job = .missing → s.volume.read (x.loadEntry job) = none) ∧
      ∀ data, u.loaders job = .done data → s.volume.read (x.loadEntry job) = some data ∧
        (some data ∈ volume.versions (x.loadEntry job) ∨
          ∃ saver, x.saveEntry saver = x.loadEntry job ∧
            x.validators.validateJson data = .ok (readMetas (x.metas saver)))) ∧
    ∀ job, (s.savers job = .returned → some (x.data job) ∈ s.volume.versions (x.saveEntry job)) ∧
      (s.savers job = .returned ∨ s.savers job = .raised →
        s.volume.names (x.tmpEntry job) = none) := by
  have hinv := Saves.Inv.of_reachable hbounded hkept h
  refine ⟨fun agent t hstep key hkey => hinv.versions_step hstep hkey, ?_, fun job => ⟨?_, ?_⟩⟩
  · intro job t u hopen hsteps
    have hsees := (hinv.step hopen).sees_steps hsteps (Saves.sees_open hopen)
    constructor
    · intro hmissing
      rw [hmissing] at hsees
      exact hsees
    · intro data hdone
      rw [hdone] at hsees
      have hread : s.volume.read (x.loadEntry job) = some data := hsees
      refine ⟨hread, ?_⟩
      have hversion : some data ∈ s.volume.versions (x.loadEntry job) :=
        hread ▸ Volume.read_mem_versions
      refine (Saves.version_of_reachable hbounded hkept h (x.lasting_loadEntry job) data
        hversion).imp_right fun hsaved => ?_
      obtain ⟨saver, hentry, rfl⟩ := hsaved
      exact ⟨saver, hentry, x.validators.validateJson_dumpJson
        (readMetas_nodup (x.metas_nodup saver))⟩
  · intro hreturned
    exact (hinv.sound job).placed (hreturned ▸ trivial)
  · intro hended
    cases hended with
    | inl hreturned => exact (hinv.sound job).cleared (hreturned ▸ trivial)
    | inr hraised => exact (hinv.sound job).cleared (hraised ▸ trivial)

/-! ## Two jobs that save one file -/

theorem metasName : osPathBasename "metas.json" = "metas.json" := by
  decide

/-- Two jobs with one file, and metas of their own. -/
def savedTwice : Saves Bool where
  validators := strictValidators
  saveMetasFile _ := "metas.json"
  metas job := if job then [] else sentMetas
  metas_nodup job := by cases job <;> decide
  random job := if job then "0qx_71bd" else "a8f3k_2q"
  random_injective job other h := by
    cases job <;> cases other
    all_goals first | rfl | exact absurd h (by decide)
  loadMetasFile _ := "metas.json"
  save_ne _ random h := by
    have hhead := congrArg (fun name : String => name.toList.head?) h
    simp [temporaryName, metasName] at hhead
  load_ne _ random h := by
    have hhead := congrArg (fun name : String => name.toList.head?) h
    simp [temporaryName, metasName] at hhead

/-- A volume without any files. -/
def emptyVolume : Volume Entry := ⟨fun _ => none, fun _ => [], fun _ => [], fun _ => false, 0⟩

/-- The first job has saved its metas and has the file open while the second one replaces it;
it reads its own. -/
theorem metas_file_whole_savedTwice : ∃ s t v u data,
    (savedTwice.machine emptyVolume).Reachable s ∧
      savedTwice.step s (.load false .openFile) = some t ∧
      (savedTwice.machine emptyVolume).Steps t v ∧
      v.volume.read (savedTwice.saveEntry true) = some (savedTwice.data true) ∧
      (savedTwice.machine emptyVolume).Steps v u ∧ u.loaders false = .done data ∧
      data = savedTwice.data false ∧
      ∃ saver, strictValidators.validateJson data = .ok (readMetas (savedTwice.metas saver)) := by
  have hentries : ∀ key i, some i ∉ emptyVolume.entries key := by
    intro key i hi
    cases List.mem_singleton.mp hi
  obtain ⟨s, hfirst, -, hloaders, hread, hsavers, hnames⟩ :=
    @Saves.saves_alone Bool _ savedTwice (savedTwice.machine emptyVolume).init emptyVolume false
      rfl rfl
  have hreachable : (savedTwice.machine emptyVolume).Reachable s := hfirst
  obtain ⟨fd, hfd, -⟩ := Option.map_eq_some_iff.mp hread
  have hopen : savedTwice.step s (.load false .openFile) =
      some (s.loaded false (.reading fd [])) := by
    have hstep : loadStep (savedTwice.loadEntry false) s.volume .idle .openFile =
        some (.reading fd []) := by
      rw [loadStep, show savedTwice.loadEntry false = savedTwice.saveEntry false from rfl, hfd]
    have hopened := Saves.next_loaded hstep
    rwa [show s.loaded false .idle = s by
      rw [State.loaded, show Loading.idle = s.loaders false by rw [hloaders]; rfl,
        Function.update_eq_self]] at hopened
  have hfree : s.volume.names (savedTwice.tmpEntry true) = none :=
    hnames _ (fun heq => savedTwice.lasting_saveEntry false true heq.symm)
      (savedTwice.tmpEntry_ne (by decide))
  obtain ⟨v, hsecond, -, hloaders', hreplaced, -⟩ := @Saves.saves_alone Bool _ savedTwice
    (s.loaded false (.reading fd [])) emptyVolume true (hsavers true (by decide)) hfree
  have hreading : v.loaders false = .reading fd [] := by
    rw [hloaders']
    simp [State.loaded]
  obtain ⟨u, hrest, hdone⟩ := @Saves.reads_on Bool _ savedTwice v emptyVolume false fd hreading
  obtain ⟨-, hloaded, -⟩ := metas_file_whole savedTwice
    (fun key i hi => absurd hi (hentries key i)) (fun key _ i hi => absurd hi (hentries key i))
    hreachable
  obtain ⟨hseen, horigin⟩ :=
    (hloaded false _ u hopen (hsecond.trans hrest)).2 _ hdone
  refine ⟨s, _, v, u, _, hreachable, hopen, hsecond, hreplaced, hrest, hdone,
    Option.some.inj (hseen.symm.trans hread), ?_⟩
  cases horigin with
  | inl hbefore => cases List.mem_singleton.mp hbefore
  | inr hsaved =>
      obtain ⟨saver, -, hvalid⟩ := hsaved
      exact ⟨saver, hvalid⟩

end CheckpointEngine.Launch
