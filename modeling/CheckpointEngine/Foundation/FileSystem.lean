/-
  `Foundation.FileSystem`: entries that name inodes, and what a loss of power leaves.

  Nothing on the disk is certain but what has been synced: an entry may come back with
  anything that it named before, each entry for itself, and an inode that has not been
  synced may come back with any contents.
-/
import Mathlib.Data.List.Basic
import Mathlib.Logic.Function.Basic

set_option autoImplicit false

namespace CheckpointEngine.Foundation

/-- A volume, its entries under keys `κ`. -/
structure Volume (κ : Type) where
  /-- The inode that an entry names. -/
  names : κ → Option Nat
  /-- What an entry named before, newest first, and the disk may still hold. -/
  earlier : κ → List (Option Nat)
  content : Nat → List UInt8
  /-- The contents of the inode are on the disk. -/
  synced : Nat → Bool
  /-- The inodes made so far are those below. -/
  inodes : Nat

namespace Volume

variable {κ : Type}

/-- What an entry names or, for all the disk holds, may name. -/
def entries (v : Volume κ) (key : κ) : List (Option Nat) := v.names key :: v.earlier key

/-- What is read of a file. -/
def read (v : Volume κ) (key : κ) : Option (List UInt8) := (v.names key).map v.content

/-- What is read of a file and, for all the disk holds, may be, newest first. -/
def versions (v : Volume κ) (key : κ) : List (Option (List UInt8)) :=
  (v.entries key).map fun i => i.map v.content

/-- Write at the end of an inode. -/
def append (v : Volume κ) (i : Nat) (bytes : List UInt8) : Volume κ :=
  { v with
    content := Function.update v.content i (v.content i ++ bytes)
    synced := Function.update v.synced i false }

/-- Put the contents of an inode on the disk. -/
def sync (v : Volume κ) (i : Nat) : Volume κ :=
  { v with synced := Function.update v.synced i true }

/-- What a loss of power leaves: of each entry the disk holds what it is `back` changes
ago, and of an inode that has not been synced it holds what is `left`. -/
def lose (v : Volume κ) (back : κ → Nat) (left : Nat → List UInt8) : Volume κ where
  names key := ((v.entries key)[back key]?).getD (v.names key)
  earlier _ := []
  content i := if v.synced i then v.content i else left i
  synced _ := true
  inodes := v.inodes

section Entries

variable [DecidableEq κ]

/-- Let an entry name this inode, or none. -/
def setName (v : Volume κ) (key : κ) (i : Option Nat) : Volume κ :=
  { v with
    names := Function.update v.names key i
    earlier := Function.update v.earlier key (v.entries key) }

/-- Make an empty file. -/
def create (v : Volume κ) (key : κ) : Volume κ :=
  { v.setName key (some v.inodes) with
    content := Function.update v.content v.inodes []
    synced := Function.update v.synced v.inodes false
    inodes := v.inodes + 1 }

def unlink (v : Volume κ) (key : κ) : Volume κ := v.setName key none

/-- Let `target` name what `source` names, and `source` nothing. -/
def rename (v : Volume κ) (source target : κ) : Volume κ :=
  (v.setName target (v.names source)).setName source none

end Entries

/-- The entry only ever named files that are on the disk. -/
def Kept (v : Volume κ) (key : κ) : Prop :=
  ∀ i, some i ∈ v.entries key → v.synced i = true

/-- All entries name inodes that there are. -/
def Bounded (v : Volume κ) : Prop := ∀ key i, some i ∈ v.entries key → i < v.inodes

variable {v : Volume κ} {key other : κ} {i j : Nat}

theorem read_mem_versions : v.read key ∈ v.versions key := List.mem_cons_self

theorem Bounded.fresh (h : v.Bounded) : some v.inodes ∉ v.entries key :=
  fun hmem => absurd (h key _ hmem) (Nat.lt_irrefl _)

theorem versions_congr {w : Volume κ} (hentries : w.entries key = v.entries key)
    (hcontent : ∀ i, some i ∈ v.entries key → w.content i = v.content i) :
    w.versions key = v.versions key := by
  rw [versions, versions, hentries]
  refine List.map_congr_left fun entry hentry => ?_
  cases entry with
  | none => rfl
  | some i => exact congrArg some (hcontent i hentry)

theorem kept_congr {w : Volume κ} (hentries : w.entries key = v.entries key)
    (hsynced : ∀ i, some i ∈ v.entries key → w.synced i = v.synced i) (h : v.Kept key) :
    w.Kept key := by
  intro i hi
  rw [hentries] at hi
  rw [hsynced i hi, h i hi]

/-! ## Inodes -/

theorem content_append_self {bytes : List UInt8} :
    (v.append i bytes).content i = v.content i ++ bytes := Function.update_self i _ _

theorem content_append_of_ne {bytes : List UInt8} (hne : j ≠ i) :
    (v.append i bytes).content j = v.content j := Function.update_of_ne hne _ _

theorem synced_append_of_ne {bytes : List UInt8} (hne : j ≠ i) :
    (v.append i bytes).synced j = v.synced j := Function.update_of_ne hne _ _

theorem synced_sync_self : (v.sync i).synced i = true := Function.update_self i _ _

theorem synced_sync (h : v.synced j = true) : (v.sync i).synced j = true := by
  rcases eq_or_ne j i with rfl | hne
  · exact synced_sync_self
  · exact (Function.update_of_ne hne _ _).trans h

theorem versions_append {bytes : List UInt8} (h : some i ∉ v.entries key) :
    (v.append i bytes).versions key = v.versions key :=
  @versions_congr _ v key (v.append i bytes) rfl fun _ hj =>
    content_append_of_ne fun heq => h (heq ▸ hj)

theorem Kept.append {bytes : List UInt8} (hkept : v.Kept key) (h : some i ∉ v.entries key) :
    (v.append i bytes).Kept key :=
  @kept_congr _ v key (v.append i bytes) rfl
    (fun _ hj => synced_append_of_ne fun heq => h (heq ▸ hj)) hkept

theorem Kept.sync (hkept : v.Kept key) : (v.sync i).Kept key := fun j hj => synced_sync (hkept j hj)

/-! ## Entries -/

section Entries

variable [DecidableEq κ]

theorem names_setName_self {entry : Option Nat} : (v.setName key entry).names key = entry :=
  Function.update_self key _ _

theorem names_setName_of_ne {entry : Option Nat} (hne : other ≠ key) :
    (v.setName key entry).names other = v.names other := Function.update_of_ne hne _ _

theorem entries_setName_self {entry : Option Nat} :
    (v.setName key entry).entries key = entry :: v.entries key := by
  simp [entries, setName]

theorem entries_setName_of_ne {entry : Option Nat} (hne : other ≠ key) :
    (v.setName key entry).entries other = v.entries other := by
  simp [entries, setName, hne]

theorem names_create_self : (v.create key).names key = some v.inodes := names_setName_self

theorem names_create_of_ne (hne : other ≠ key) : (v.create key).names other = v.names other :=
  names_setName_of_ne hne

theorem entries_create_self : (v.create key).entries key = some v.inodes :: v.entries key :=
  entries_setName_self

theorem entries_create_of_ne (hne : other ≠ key) :
    (v.create key).entries other = v.entries other := entries_setName_of_ne hne

theorem content_create_of_lt (hlt : i < v.inodes) : (v.create key).content i = v.content i :=
  Function.update_of_ne (Nat.ne_of_lt hlt) _ _

theorem synced_create_of_lt (hlt : i < v.inodes) : (v.create key).synced i = v.synced i :=
  Function.update_of_ne (Nat.ne_of_lt hlt) _ _

theorem content_create_self : (v.create key).content v.inodes = [] := Function.update_self _ _ _

theorem versions_create (hbounded : v.Bounded) (hne : other ≠ key) :
    (v.create key).versions other = v.versions other :=
  versions_congr (entries_create_of_ne hne) fun _ hi => content_create_of_lt (hbounded _ _ hi)

theorem Kept.create (hkept : v.Kept other) (hbounded : v.Bounded) (hne : other ≠ key) :
    (v.create key).Kept other :=
  kept_congr (entries_create_of_ne hne) (fun _ hi => synced_create_of_lt (hbounded _ _ hi)) hkept

theorem Bounded.create (hbounded : v.Bounded) : (v.create key).Bounded := by
  intro other i hi
  refine Nat.lt_succ_of_le ?_
  rcases eq_or_ne other key with rfl | hne
  · rw [entries_create_self, List.mem_cons] at hi
    cases hi with
    | inl heq => exact Nat.le_of_eq (Option.some.inj heq)
    | inr hmem => exact Nat.le_of_lt (hbounded _ _ hmem)
  · rw [entries_create_of_ne hne] at hi
    exact Nat.le_of_lt (hbounded _ _ hi)

theorem Bounded.setName (hbounded : v.Bounded) {entry : Option Nat}
    (hentry : ∀ i, entry = some i → i < v.inodes) : (v.setName key entry).Bounded := by
  intro other i hi
  rcases eq_or_ne other key with rfl | hne
  · rw [entries_setName_self, List.mem_cons] at hi
    cases hi with
    | inl heq => exact hentry i heq.symm
    | inr hmem => exact hbounded _ _ hmem
  · rw [entries_setName_of_ne hne] at hi
    exact hbounded _ _ hi

theorem entries_unlink_self : (v.unlink key).entries key = none :: v.entries key :=
  entries_setName_self

theorem entries_unlink_of_ne (hne : other ≠ key) :
    (v.unlink key).entries other = v.entries other := entries_setName_of_ne hne

theorem versions_unlink (hne : other ≠ key) : (v.unlink key).versions other = v.versions other :=
  versions_congr (entries_unlink_of_ne hne) fun _ _ => rfl

theorem Kept.unlink (hkept : v.Kept other) (hne : other ≠ key) : (v.unlink key).Kept other :=
  kept_congr (entries_unlink_of_ne hne) (fun _ _ => rfl) hkept

theorem Bounded.unlink (hbounded : v.Bounded) : (v.unlink key).Bounded :=
  hbounded.setName fun _ h => by cases h

/-! ## Replacing a file -/

variable {source target : κ}

theorem entries_rename_target (hne : target ≠ source) :
    (v.rename source target).entries target = v.names source :: v.entries target := by
  rw [rename, entries_setName_of_ne hne, entries_setName_self]

theorem entries_rename_source (hne : target ≠ source) :
    (v.rename source target).entries source = none :: v.entries source := by
  rw [rename, entries_setName_self, entries_setName_of_ne hne.symm]

theorem entries_rename_of_ne (hsource : key ≠ source) (htarget : key ≠ target) :
    (v.rename source target).entries key = v.entries key := by
  rw [rename, entries_setName_of_ne hsource, entries_setName_of_ne htarget]

/-- The file is replaced as a whole. -/
theorem versions_rename (hne : target ≠ source) (hnames : v.names source = some i) :
    (v.rename source target).versions target = some (v.content i) :: v.versions target := by
  rw [versions, entries_rename_target hne, hnames]
  rfl

theorem versions_rename_of_ne (hsource : key ≠ source) (htarget : key ≠ target) :
    (v.rename source target).versions key = v.versions key :=
  versions_congr (entries_rename_of_ne hsource htarget) fun _ _ => rfl

theorem Kept.rename (hkept : v.Kept key) (hsource : key ≠ source) (hnames : v.names source = some i)
    (hsynced : v.synced i = true) : (v.rename source target).Kept key := by
  intro j hj
  rcases eq_or_ne key target with rfl | htarget
  · rw [entries_rename_target hsource, hnames, List.mem_cons] at hj
    cases hj with
    | inl heq => exact Option.some.inj heq ▸ hsynced
    | inr hmem => exact hkept j hmem
  · rw [entries_rename_of_ne hsource htarget] at hj
    exact hkept j hj

theorem Bounded.rename (hbounded : v.Bounded) : (v.rename source target).Bounded := by
  refine Bounded.setName (hbounded.setName fun i hi => ?_) fun _ h => by cases h
  exact hbounded source i (List.mem_cons.mpr (.inl hi.symm))

end Entries

/-! ## Losing power -/

section Losing

variable {back : κ → Nat} {left : Nat → List UInt8}

theorem entries_lose : (v.lose back left).entries key = [(v.lose back left).names key] := rfl

theorem names_lose_mem : (v.lose back left).names key ∈ v.entries key := by
  change (((v.entries key)[back key]?).getD (v.names key)) ∈ _
  cases hentry : (v.entries key)[back key]? with
  | none => exact List.mem_cons_self
  | some entry => exact List.mem_of_getElem? hentry

/-- A file that was always synced comes back as one of its versions. -/
theorem versions_lose (h : v.Kept key) :
    ∃ version ∈ v.versions key, (v.lose back left).versions key = [version] := by
  have hmem := @names_lose_mem κ v key back left
  refine ⟨((v.lose back left).names key).map v.content, List.mem_map_of_mem hmem, ?_⟩
  rw [versions, entries_lose, List.map_singleton]
  congr 1
  cases hname : (v.lose back left).names key with
  | none => rfl
  | some i =>
      rw [hname] at hmem
      simp only [Option.map_some, lose, h i hmem, if_true]

theorem kept_lose : (v.lose back left).Kept key := fun _ _ => rfl

theorem Bounded.lose (hbounded : v.Bounded) : (v.lose back left).Bounded := by
  intro key i hi
  rw [entries_lose, List.mem_singleton] at hi
  exact hbounded key i (hi ▸ names_lose_mem)

end Losing

end Volume

end CheckpointEngine.Foundation
