/-
  `Foundation.Span`: runs of consecutive addresses in numbered buffers.

  An address is a pair of a buffer's key and an offset in that buffer.  A span
  is the list of the addresses of one run, so that "these ranges tile that
  buffer, in order, without gap or overlap" is an equation between lists.
-/
import Mathlib.Data.List.Basic

set_option autoImplicit false

namespace CheckpointEngine.Foundation

variable {κ : Type}

/-- The `size` addresses of buffer `k` from `offset` on, in order. -/
def span (k : κ) (offset size : Nat) : List (κ × Nat) :=
  (List.range' offset size).map (Prod.mk k)

@[simp] theorem span_zero (k : κ) (offset : Nat) : span k offset 0 = [] := rfl

@[simp] theorem length_span (k : κ) (offset size : Nat) :
    (span k offset size).length = size := by
  simp [span]

/-- Two adjacent spans are one span. -/
theorem span_add (k : κ) (offset m n : Nat) :
    span k offset (m + n) = span k offset m ++ span k (offset + m) n := by
  unfold span
  rw [← List.map_append, List.range'_append_1]

theorem getElem?_span {k : κ} {offset size i : Nat} (h : i < size) :
    (span k offset size)[i]? = some (k, offset + i) := by
  simp [span, h]

/-- Looking an address up behind a prefix of known length. -/
theorem getElem?_append_span {k : κ} {offset size i : Nat} (before after : List (κ × Nat))
    (h : i < size) :
    (before ++ span k offset size ++ after)[before.length + i]? = some (k, offset + i) := by
  rw [List.append_assoc, List.getElem?_append_right (by omega),
    List.getElem?_append_left (by simp; omega), Nat.add_sub_cancel_left]
  exact getElem?_span h

end CheckpointEngine.Foundation
