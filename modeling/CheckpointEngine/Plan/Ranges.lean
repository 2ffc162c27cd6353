/-
  `Plan.Ranges`: what the ranges of a bucket read, as a list of addresses.
-/
import CheckpointEngine.DataTypes
import CheckpointEngine.Foundation.Span

set_option autoImplicit false

namespace CheckpointEngine

open CheckpointEngine.Foundation

/-- The addresses a range reads, as pairs of buffer index and offset. -/
def BucketRange.addresses (range : BucketRange) : List (Nat × Nat) :=
  span range.idx range.offset range.size

@[simp] theorem BucketRange.length_addresses (range : BucketRange) :
    range.addresses.length = range.size := length_span _ _ _

/-- The addresses a list of ranges reads, in order. -/
def rangeAddresses (ranges : List BucketRange) : List (Nat × Nat) :=
  ranges.flatMap BucketRange.addresses

theorem length_rangeAddresses (ranges : List BucketRange) :
    (rangeAddresses ranges).length = (ranges.map (·.size)).sum := by
  induction ranges with
  | nil => rfl
  | cons range rest ih =>
      simp only [rangeAddresses, List.flatMap_cons, List.length_append] at ih ⊢
      simp [ih]

/-- Ranges of size 0 read nothing. -/
theorem rangeAddresses_filter (ranges : List BucketRange) :
    rangeAddresses (ranges.filter (0 < ·.size)) = rangeAddresses ranges := by
  induction ranges with
  | nil => rfl
  | cons range rest ih =>
      simp only [rangeAddresses] at ih ⊢
      by_cases hpos : 0 < range.size
      · simp [hpos, ih]
      · have hzero : range.size = 0 := by omega
        simp [hzero, ih, BucketRange.addresses]

/-- Where position `p` of a bucket comes from: the ranges are walked in order. -/
def locate : List BucketRange → Nat → Option (Nat × Nat)
  | [], _ => none
  | range :: rest, p =>
      if p < range.size then some (range.idx, range.offset + p)
      else locate rest (p - range.size)

theorem locate_eq_getElem? (ranges : List BucketRange) (p : Nat) :
    locate ranges p = (rangeAddresses ranges)[p]? := by
  induction ranges generalizing p with
  | nil => simp [locate, rangeAddresses]
  | cons range rest ih =>
      unfold locate
      simp only [rangeAddresses, List.flatMap_cons] at ih ⊢
      split
      · rename_i h
        rw [List.getElem?_append_left (by simpa using h)]
        exact (getElem?_span h).symm
      · rename_i h
        rw [ih, List.getElem?_append_right (by simp; omega), BucketRange.length_addresses]

end CheckpointEngine
