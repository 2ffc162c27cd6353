/-
  `Foundation.Memory`: flat memories, copies between them, and writes.

  A memory is total.  That an access stays inside an allocation is a statement
  about its addresses, not about the memory.  Writes that have no address in common
  may be done in any order.
-/
import Mathlib.Data.List.Basic

set_option autoImplicit false

namespace CheckpointEngine.Foundation

/-- The contents of an address space. -/
abbrev Memory (β : Type) := Nat → β

/-- `size` consecutive addresses from `start` on. -/
structure Region where
  start : Nat
  size : Nat
  deriving DecidableEq, Repr

/-- The address lies in the region. -/
def Region.Contains (region : Region) (a : Nat) : Prop :=
  region.start ≤ a ∧ a < region.start + region.size

instance (region : Region) (a : Nat) : Decidable (region.Contains a) :=
  inferInstanceAs (Decidable (_ ∧ _))

namespace Memory

variable {β : Type}

/-- Overwrite a region with the bytes of `src` from `srcStart` on. -/
def copy (dst : Memory β) (region : Region) (src : Memory β) (srcStart : Nat) : Memory β :=
  fun a => if region.Contains a then src (srcStart + (a - region.start)) else dst a

/-- The `size` bytes from `start` on. -/
def read (m : Memory β) (start size : Nat) : List β :=
  (List.range size).map fun j => m (start + j)

/-- A copy leaves everything outside its region alone. -/
theorem copy_outside {dst src : Memory β} {region : Region} {srcStart a : Nat}
    (h : ¬ region.Contains a) : dst.copy region src srcStart a = dst a := by
  simp [copy, h]

/-- Byte `j` of the region is byte `j` of the source. -/
theorem copy_inside {dst src : Memory β} {region : Region} {srcStart j : Nat}
    (h : j < region.size) :
    dst.copy region src srcStart (region.start + j) = src (srcStart + j) := by
  have hin : region.Contains (region.start + j) := ⟨by omega, by omega⟩
  simp [copy, hin]

/-- Memories that agree on what is read give the same bytes. -/
theorem read_congr {m m' : Memory β} {start start' size : Nat}
    (h : ∀ j < size, m (start + j) = m' (start' + j)) :
    m.read start size = m'.read start' size := by
  unfold read
  apply List.map_congr_left
  intro j hj
  exact h j (List.mem_range.mp hj)

/-- Reading a part of what is read. -/
theorem read_part (m : Memory β) (start : Nat) {size offset n : Nat} (h : offset + n ≤ size) :
    m.read (start + offset) n = ((m.read start size).drop offset).take n := by
  refine List.ext_getElem ?_ fun j hj _ => ?_
  · simp only [read, List.length_map, List.length_range, List.length_take, List.length_drop]
    omega
  · simp [read, Nat.add_assoc]

end Memory

/-! ## Writes -/

/-- The regions have no address in common. -/
def Region.Apart (region region' : Region) : Prop :=
  ∀ a, ¬ (region.Contains a ∧ region'.Contains a)

theorem Region.Apart.symm {region region' : Region} (h : region.Apart region') :
    region'.Apart region := fun a ha => h a ha.symm

/-- Bytes to be put at a place. -/
structure Write (β : Type) where
  start : Nat
  bytes : List β
  deriving DecidableEq, Repr

namespace Write

variable {β : Type}

/-- The addresses it goes to. -/
def region (w : Write β) : Region := ⟨w.start, w.bytes.length⟩

/-- No address is written by both. -/
def Apart (w w' : Write β) : Prop := w.region.Apart w'.region

end Write

namespace Memory

variable {β : Type} {m : Memory β}

/-- The memory after a write. -/
def write (m : Memory β) (w : Write β) : Memory β := fun a =>
  if w.start ≤ a then (w.bytes[a - w.start]?).getD (m a) else m a

/-- The memory after several writes. -/
def writeAll (m : Memory β) (writes : List (Write β)) : Memory β := writes.foldl write m

theorem write_outside {w : Write β} {a : Nat} (h : ¬ w.region.Contains a) :
    m.write w a = m a := by
  unfold write
  split
  · next hle =>
      have hlength : w.bytes.length ≤ a - w.start := by
        by_contra hlt
        exact h ⟨hle, by simp only [Write.region]; omega⟩
      rw [List.getElem?_eq_none hlength, Option.getD_none]
  · rfl

theorem write_inside {w : Write β} {j : Nat} (h : j < w.bytes.length) :
    m.write w (w.start + j) = w.bytes[j] := by
  simp [write, h]

/-- An address inside the region of a write. -/
theorem exists_offset {w : Write β} {a : Nat} (h : w.region.Contains a) :
    ∃ j, j < w.bytes.length ∧ a = w.start + j := by
  obtain ⟨hle, hlt⟩ := h
  simp only [Write.region] at hle hlt
  exact ⟨a - w.start, by omega, by omega⟩

theorem write_comm {w w' : Write β} (h : w.Apart w') :
    (m.write w).write w' = (m.write w').write w := by
  funext a
  by_cases hw : w.region.Contains a
  · have hw' : ¬ w'.region.Contains a := fun hw' => h a ⟨hw, hw'⟩
    obtain ⟨j, hj, rfl⟩ := exists_offset hw
    rw [write_outside hw', write_inside hj, write_inside hj]
  · rw [write_outside (m := m.write w') hw]
    by_cases hw' : w'.region.Contains a
    · obtain ⟨j, hj, rfl⟩ := exists_offset hw'
      rw [write_inside hj, write_inside hj]
    · rw [write_outside hw', write_outside hw', write_outside hw]

/-- Writes that are apart may be done in any order. -/
theorem writeAll_perm {writes writes' : List (Write β)} (hperm : writes.Perm writes')
    (hapart : writes.Pairwise Write.Apart) : m.writeAll writes = m.writeAll writes' := by
  have hcomm : ∀ w ∈ writes, ∀ w' ∈ writes, ∀ m : Memory β,
      (m.write w).write w' = (m.write w').write w := by
    refine List.Pairwise.forall_of_forall_of_flip (fun _ _ _ => rfl) ?_ ?_
    · exact hapart.imp fun h _ => write_comm h
    · exact hapart.imp fun h _ => (write_comm h).symm
  exact hperm.foldl_eq' hcomm m

theorem writeAll_outside {writes : List (Write β)} {a : Nat}
    (h : ∀ w ∈ writes, ¬ w.region.Contains a) : m.writeAll writes a = m a := by
  induction writes generalizing m with
  | nil => rfl
  | cons w rest ih =>
      obtain ⟨hw, hrest⟩ := List.forall_mem_cons.mp h
      exact (ih hrest).trans (write_outside hw)

/-- Reading back a write finds its bytes. -/
theorem read_write (w : Write β) : (m.write w).read w.start w.bytes.length = w.bytes := by
  refine List.ext_getElem (by simp [read]) fun j _ hj => ?_
  simp [read, write_inside hj]

/-- Reading back one of many writes finds its bytes, if the others keep away from it. -/
theorem read_writeAll {writes : List (Write β)} (hapart : writes.Pairwise Write.Apart)
    {w : Write β} (hw : w ∈ writes) :
    (m.writeAll writes).read w.start w.bytes.length = w.bytes := by
  induction writes generalizing m with
  | nil => simp at hw
  | cons first rest ih =>
      obtain ⟨hfirst, hrest⟩ := List.pairwise_cons.mp hapart
      rcases List.mem_cons.mp hw with rfl | hmem
      · calc (m.writeAll (w :: rest)).read w.start w.bytes.length
            = (m.write w).read w.start w.bytes.length := by
              refine read_congr fun j hj => ?_
              refine writeAll_outside fun other hother hin => hfirst other hother _ ⟨?_, hin⟩
              exact ⟨Nat.le_add_right _ _, Nat.add_lt_add_left hj _⟩
          _ = w.bytes := read_write w
      · exact ih hrest hmem

end Memory

end CheckpointEngine.Foundation
