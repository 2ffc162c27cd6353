/-
  `Worker.ExtractWeights`: `_extract_weights` of `checkpoint_engine/worker.py`, for
  metadata of any form.

  The worker unpickles what it is sent, so an entry of a metadata list need not be what
  the server makes of a tensor.  Slices and views are those of torch.
-/
import CheckpointEngine.Worker.IpcHandler
import CheckpointEngine.Update.Schedule

set_option autoImplicit false

namespace CheckpointEngine.Worker

open CheckpointEngine.Foundation
open CheckpointEngine.Update (NamedTensor)

/-- The value of a key in a dictionary: there may be none, or one of the wrong type. -/
inductive Field (α : Type) where
  | missing
  | wrong
  | value (a : α)
  deriving DecidableEq, Repr

/-- What stands under `"name"`: any object, which is handed on unseen. -/
inductive ItemName where
  | str (name : String)
  /-- an object that is no string; `form` tells such objects apart -/
  | other (form : Nat)
  deriving DecidableEq, Repr

/-- An entry of a metadata list.  A shape is the sizes a `torch.Size` is made of. -/
inductive MetadataItem where
  | dict (name : Option ItemName) (shape : Field (List Int)) (dtype : Field DType)
      (offset : Field Int)
  /-- nothing that has a value under `"shape"` -/
  | other
  deriving DecidableEq, Repr

/-- A tensor handed to `run`: the view of `size` bytes of the shared buffer from `start` on. -/
structure WeightView where
  name : ItemName
  dtype : DType
  shape : TorchSize
  start : Nat
  size : Nat
  deriving DecidableEq, Repr

/-- `item[key]`, used as a value of type `α`. -/
def Field.get {α : Type} (key : String) (wrong : WorkerError) : Field α → Except WorkerError α
  | .missing => .error (.keyError key)
  | .wrong => .error wrong
  | .value a => .ok a

/-- An end of a slice of `n` elements: counted from the back when negative, and cut off. -/
def sliceEnd (n : Nat) (i : Int) : Nat := min (if i < 0 then (i + n).toNat else i.toNat) n

/-- The sizes of `view(shape)` of so many elements: one of those asked for may be open. -/
def viewShape (elements : Nat) (shape : List Int) : Option TorchSize :=
  let given := (shape.filter (· ≠ -1)).prod
  let opened := shape.count (-1)
  if shape.all (-1 ≤ ·) ∧
      (opened = 0 ∧ given = elements ∨ opened = 1 ∧ given ≠ 0 ∧ given ∣ (elements : Int)) then
    some (shape.map fun dim => if dim = -1 then elements / given.toNat else dim.toNat)
  else
    none

/-- The body of the loop: `buffer[offset : offset + size].view(dtype).view(shape)`, for a
buffer of `nbytes` bytes, under the name of the item. -/
def extractWeight (nbytes : Nat) : MetadataItem → Except WorkerError WeightView
  | .other => .error (.typeError "")
  | .dict name shape dtype offset => do
      let shape ← shape.get "shape" (.assertionError "")
      let dtype ← dtype.get "dtype" (.attributeError "itemsize")
      let offset ← offset.get "offset" (.typeError "")
      let size := dtype.itemsize * shape.prod
      let start := sliceEnd nbytes offset
      let length := sliceEnd nbytes (offset + size) - start
      if dtype.itemsize ∣ length ∧ dtype.itemsize ∣ start then
        match viewShape (length / dtype.itemsize) shape, name with
        | none, _ => .error (.outside "view")
        | some _, none => .error (.keyError "name")
        | some sizes, some name => return ⟨name, dtype, sizes, start, length⟩
      else
        .error (.outside "view")

/-- `_extract_weights`. -/
def extractWeights (nbytes : Nat) (payload : List MetadataItem) :
    Except WorkerError (List WeightView) :=
  payload.mapM (extractWeight nbytes)

/-! ## What the server sends -/

/-- A tensor as the server announces it. -/
def announcedItem (item : NamedTensor) : MetadataItem :=
  .dict (some (.str item.name)) (.value (item.shape.map Int.ofNat)) (.value item.dtype)
    (.value item.offset)

/-- The view of a tensor that the server announces. -/
def announcedView (item : NamedTensor) : WeightView :=
  ⟨.str item.name, item.dtype, item.shape, item.offset, item.dtype.itemsize * numel item.shape⟩

theorem prod_map_ofNat (shape : TorchSize) : (shape.map Int.ofNat).prod = numel shape := by
  induction shape with
  | nil => rfl
  | cons dim rest ih =>
      rw [List.map_cons, List.prod_cons, ih]
      exact (Int.natCast_mul dim (numel rest)).symm

/-- Sizes that are all given are those of the view. -/
theorem viewShape_ofNat (shape : TorchSize) :
    viewShape (numel shape) (shape.map Int.ofNat) = some shape := by
  have hgiven : ∀ dim ∈ shape.map Int.ofNat, 0 ≤ dim := by
    intro dim hdim
    obtain ⟨n, _, rfl⟩ := List.mem_map.mp hdim
    exact Int.natCast_nonneg n
  have hkept : (shape.map Int.ofNat).filter (· ≠ -1) = shape.map Int.ofNat := by
    apply List.filter_eq_self.mpr
    intro dim hdim
    have := hgiven dim hdim
    simp only [ne_eq, decide_not, Bool.not_eq_true', decide_eq_false_iff_not]
    omega
  have hopened : (shape.map Int.ofNat).count (-1) = 0 := by
    apply List.count_eq_zero.mpr
    intro hdim
    have := hgiven _ hdim
    omega
  have hall : (shape.map Int.ofNat).all (-1 ≤ ·) = true := by
    apply List.all_eq_true.mpr
    intro dim hdim
    have := hgiven dim hdim
    simp only [decide_eq_true_eq]
    omega
  have hsizes : (shape.map Int.ofNat).map (fun dim =>
      if dim = -1 then numel shape / (numel shape : Int).toNat else dim.toNat) = shape := by
    rw [List.map_map]
    conv_rhs => rw [← List.map_id shape]
    apply List.map_congr_left
    intro n _
    simp only [Function.comp_apply, Int.ofNat_eq_natCast, Int.toNat_natCast, id_eq]
    rw [if_neg (by omega)]
  simp only [viewShape, hkept, hopened, hall, prod_map_ofNat, true_and, true_or, if_true, hsizes]

theorem sliceEnd_natCast {n i : Nat} (h : i ≤ n) : sliceEnd n i = i := by
  rw [sliceEnd, if_neg (Int.not_lt.mpr (Int.natCast_nonneg i)), Int.toNat_natCast,
    Nat.min_eq_left h]

theorem extractWeight_announced {nbytes : Nat} {item : NamedTensor}
    (hroom : item.offset + item.dtype.itemsize * numel item.shape ≤ nbytes)
    (haligned : item.dtype.itemsize ∣ item.offset) :
    extractWeight nbytes (announcedItem item) = .ok (announcedView item) := by
  have hpos : 0 < item.dtype.itemsize := by cases item.dtype <;> decide
  have hsize : (item.dtype.itemsize : Int) * (item.shape.map Int.ofNat).prod =
      (item.dtype.itemsize * numel item.shape : Nat) := by
    rw [prod_map_ofNat, Int.natCast_mul]
  have hstart : sliceEnd nbytes item.offset = item.offset := sliceEnd_natCast (by omega)
  have hstop : sliceEnd nbytes (item.offset +
      item.dtype.itemsize * (item.shape.map Int.ofNat).prod) - item.offset =
        item.dtype.itemsize * numel item.shape := by
    rw [hsize, ← Int.natCast_add, sliceEnd_natCast hroom, Nat.add_sub_cancel_left]
  have haligned : item.dtype.itemsize ∣ item.dtype.itemsize * numel item.shape ∧
      item.dtype.itemsize ∣ item.offset := ⟨Nat.dvd_mul_right _ _, haligned⟩
  have hview : viewShape (item.dtype.itemsize * numel item.shape / item.dtype.itemsize)
      (item.shape.map Int.ofNat) = some item.shape := by
    rw [Nat.mul_div_cancel_left _ hpos]
    exact viewShape_ofNat item.shape
  simp only [extractWeight, announcedItem, Field.get, bind, Except.bind, hstart, hstop, haligned,
    and_self, if_true, hview]
  rfl

/-- Tensors that lie in the buffer, aligned to their elements, are handed over as they are. -/
theorem extractWeights_announced {nbytes : Nat} {items : List NamedTensor}
    (h : ∀ item ∈ items, item.offset + item.dtype.itemsize * numel item.shape ≤ nbytes ∧
      item.dtype.itemsize ∣ item.offset) :
    extractWeights nbytes (items.map announcedItem) = .ok (items.map announcedView) := by
  induction items with
  | nil => rfl
  | cons item rest ih =>
      obtain ⟨hroom, haligned⟩ := h item List.mem_cons_self
      have hrest := ih fun other hother => h other (List.mem_cons_of_mem _ hother)
      rw [extractWeights, List.map_cons, List.mapM_cons, extractWeight_announced hroom haligned]
      change (extractWeights nbytes (rest.map announcedItem) >>= _) = _
      rw [hrest]
      rfl

end CheckpointEngine.Worker
