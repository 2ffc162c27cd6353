/-
  `Foundation.Chunks`: a list cut into consecutive parts of one length, and lists of rows
  cut from top to bottom.
-/
import Mathlib.Data.List.Basic
import Mathlib.Algebra.Order.Ring.Int

set_option autoImplicit false

namespace CheckpointEngine.Foundation

variable {α β : Type}

/-- `xs[start:stop]`. -/
def slice (start stop : Nat) (xs : List α) : List α := (xs.drop start).take (stop - start)

theorem slice_map (f : α → β) (start stop : Nat) (xs : List α) :
    slice start stop (xs.map f) = (slice start stop xs).map f := by
  rw [slice, slice, List.map_take, List.map_drop]

theorem mem_of_mem_slice {start stop : Nat} {xs : List α} {x : α} (h : x ∈ slice start stop xs) :
    x ∈ xs :=
  List.mem_of_mem_drop (List.mem_of_mem_take h)

theorem stop_sub_start (k width : Nat) : (k + 1) * width - k * width = width := by
  rw [Nat.succ_mul, Nat.add_sub_cancel_left]

/-- Parts `0` to `n - 1`, one behind the other, are the beginning of the list. -/
theorem flatMap_slice (width n : Nat) (xs : List α) :
    ((List.range n).flatMap fun k => slice (k * width) ((k + 1) * width) xs) =
      xs.take (n * width) := by
  induction n with
  | zero => simp
  | succ n ih =>
      rw [List.range_succ, List.flatMap_append, ih, List.flatMap_singleton, slice, stop_sub_start,
        Nat.succ_mul, List.take_add]

/-- The least length of which `n` parts cover `length` elements. -/
def partLength (length n : Nat) : Nat := (length + n - 1) / n

theorem le_mul_partLength (length : Nat) {n : Nat} (hn : 0 < n) :
    length ≤ n * partLength length n := by
  have hmod := Nat.div_add_mod (length + n - 1) n
  have hlt := Nat.mod_lt (length + n - 1) hn
  rw [partLength]
  omega

/-- Together the `n` parts are the list. -/
theorem flatMap_parts {n : Nat} (hn : 0 < n) (xs : List α) :
    ((List.range n).flatMap fun k =>
      slice (k * partLength xs.length n) ((k + 1) * partLength xs.length n) xs) = xs := by
  rw [flatMap_slice, List.take_of_length_le (le_mul_partLength xs.length hn)]

/-- Part `n - 1` may be shorter than the others, or empty, and so may those before it. -/
example : (List.range 4).map (fun k => slice (k * 2) ((k + 1) * 2) [1, 2, 3, 4, 5]) =
    [[1, 2], [3, 4], [5], []] := by decide

/-! ## Rows -/

theorem length_slice {start stop : Nat} {xs : List α} (h : stop ≤ xs.length) :
    (slice start stop xs).length = stop - start := by
  rw [slice, List.length_take, List.length_drop]
  omega

/-- Parts of one length, put one behind the other, are found in their places. -/
theorem slice_flatMap {width n : Nat} {f : Nat → List α} (hwidth : ∀ k < n, (f k).length = width)
    {i : Nat} (hi : i < n) :
    slice (i * width) ((i + 1) * width) ((List.range n).flatMap f) = f i := by
  have hlength : ∀ m ≤ n, ((List.range m).flatMap f).length = m * width := by
    intro m hm
    induction m with
    | zero => simp
    | succ m ih =>
        rw [List.range_succ, List.flatMap_append, List.flatMap_singleton, List.length_append,
          ih (Nat.le_of_succ_le hm), hwidth m hm, Nat.succ_mul]
  obtain ⟨rest, hrest⟩ := Nat.exists_eq_add_of_lt hi
  have hsplit : (List.range n).flatMap f = (List.range i).flatMap f ++
      (f i ++ ((List.range rest).map (i + 1 + ·)).flatMap f) := by
    rw [hrest, Nat.add_right_comm, List.range_add, List.flatMap_append, List.range_succ,
      List.flatMap_append, List.flatMap_singleton, List.append_assoc]
  rw [slice, hsplit, List.drop_left' (hlength i (Nat.le_of_lt hi)), stop_sub_start,
    List.take_left' (hwidth i hi)]

/-- Row `i` of a list that is made of rows of one width. -/
def row (width : Nat) (xs : List α) (i : Nat) : List α := slice (i * width) ((i + 1) * width) xs

theorem length_row {width rows : Nat} {xs : List α} (hlength : xs.length = rows * width) {i : Nat}
    (hi : i < rows) : (row width xs i).length = width := by
  have hle : (i + 1) * width ≤ xs.length := hlength ▸ Nat.mul_le_mul_right width hi
  rw [row, length_slice hle, stop_sub_start]

/-- The places from `start` to `stop` of all rows. -/
def strip (rows width start stop : Nat) (xs : List α) : List α :=
  (List.range rows).flatMap fun i => slice start stop (row width xs i)

/-- Lists of rows, each with the width of its own rows, side by side. -/
def beside (rows : Nat) (parts : List (Nat × List α)) : List α :=
  (List.range rows).flatMap fun i => parts.flatMap fun part => row part.1 part.2 i

theorem length_beside {rows : Nat} {parts : List (Nat × List α)}
    (hparts : ∀ part ∈ parts, part.2.length = rows * part.1) :
    (beside rows parts).length = rows * (parts.map Prod.fst).sum := by
  have hrow : ∀ length ∈ (List.range rows).map fun i =>
      (parts.flatMap fun part => row part.1 part.2 i).length,
      length = (parts.map Prod.fst).sum := by
    intro length hmem
    obtain ⟨i, hi, rfl⟩ := List.mem_map.mp hmem
    rw [List.length_flatMap]
    exact congrArg List.sum (List.map_congr_left fun part hpart =>
      length_row (hparts part hpart) (List.mem_range.mp hi))
  have hrows := List.eq_replicate_iff.mpr ⟨rfl, hrow⟩
  rw [beside, List.length_flatMap, hrows, List.sum_replicate_nat, List.length_map,
    List.length_range]

/-- One list of rows beside nothing else. -/
theorem beside_singleton {rows width : Nat} {xs : List α} (hlength : xs.length = rows * width) :
    beside rows [(width, xs)] = xs := by
  have hrow : ∀ i, ([(width, xs)].flatMap fun part => row part.1 part.2 i) =
      slice (i * width) ((i + 1) * width) xs := fun i => by
    rw [List.flatMap_singleton]
    rfl
  rw [beside, List.flatMap_congr fun i _ => hrow i, flatMap_slice]
  exact List.take_of_length_le (Nat.le_of_eq hlength)

theorem length_strip {rows width start stop : Nat} {xs : List α}
    (hlength : xs.length = rows * width) (hstop : stop ≤ width) :
    (strip rows width start stop xs).length = rows * (stop - start) := by
  have hslices : (List.range rows).map (fun i => (slice start stop (row width xs i)).length) =
      List.replicate rows (stop - start) := by
    refine List.eq_replicate_iff.mpr ⟨by simp, fun length hmem => ?_⟩
    obtain ⟨i, hi, rfl⟩ := List.mem_map.mp hmem
    refine length_slice ?_
    rwa [length_row hlength (List.mem_range.mp hi)]
  rw [strip, List.length_flatMap, hslices, List.sum_replicate_nat]

/-- Row `i` of a strip is what the strip takes of row `i`. -/
theorem row_strip {rows width start stop : Nat} {xs : List α}
    (hlength : xs.length = rows * width) (hstop : stop ≤ width) {i : Nat} (hi : i < rows) :
    row (stop - start) (strip rows width start stop xs) i = slice start stop (row width xs i) := by
  refine slice_flatMap (fun k hk => length_slice ?_) hi
  rwa [length_row hlength hk]

/-- The strips that a list has been cut into are the list when put side by side. -/
theorem beside_strips {rows width count : Nat} {xs : List α}
    (hlength : xs.length = rows * (count * width)) :
    beside rows ((List.range count).map fun k =>
      (width, strip rows (count * width) (k * width) ((k + 1) * width) xs)) = xs := by
  have hrow : ∀ i < rows, ((List.range count).flatMap fun k =>
      row width (strip rows (count * width) (k * width) ((k + 1) * width) xs) i) =
        row (count * width) xs i := by
    intro i hi
    have hstrip : ∀ k ∈ List.range count,
        row width (strip rows (count * width) (k * width) ((k + 1) * width) xs) i =
          slice (k * width) ((k + 1) * width) (row (count * width) xs i) := by
      intro k hk
      have hstop : (k + 1) * width ≤ count * width :=
        Nat.mul_le_mul_right width (List.mem_range.mp hk)
      have hslice := @row_strip _ rows _ (k * width) _ _ hlength hstop i hi
      rwa [stop_sub_start] at hslice
    rw [List.flatMap_congr hstrip, flatMap_slice]
    exact List.take_of_length_le (Nat.le_of_eq (length_row hlength hi))
  calc beside rows _ = (List.range rows).flatMap fun i => row (count * width) xs i := by
        refine List.flatMap_congr fun i hi => ?_
        rw [List.flatMap_map]
        exact hrow i (List.mem_range.mp hi)
    _ = xs.take (rows * (count * width)) := flatMap_slice _ rows xs
    _ = xs := List.take_of_length_le (Nat.le_of_eq hlength)

/-- Two rows of four, cut in two. -/
example : strip 2 4 2 4 [1, 2, 3, 4, 5, 6, 7, 8] = [3, 4, 7, 8] := by decide

end CheckpointEngine.Foundation
