/-
  `Plan.H2DBuckets`: the bucket planner, the nested loop of `_gen_h2d_buckets`
  in `checkpoint_engine/ps.py`.

  The source appends to one list `buckets` and works on `buckets[-1]`.  Every
  owner starts with a fresh bucket of its own, so the list falls apart by owner;
  `Scan` holds one owner's part of it together with the two offsets of the loop.
-/
import CheckpointEngine.DataTypes

set_option autoImplicit false

namespace CheckpointEngine.Plan

/-- The loop variables while one owner's buffers are scanned: the owner's part
of `buckets[:-1]`, `buckets[-1]`, `start_offset` and `offset`. -/
structure Scan (Size : Type := Nat) where
  closed : List (H2DBucket Size)
  last : H2DBucket Size
  startOffset : Size
  offset : Size
  deriving DecidableEq, Repr

variable {Size : Type} [OfNat Size 0] [Add Size] [Sub Size] [LT Size] [DecidableLT Size]
  [ToString Size]

/-- `buckets[-1][1].ranges.append(BucketRange(idx, start_offset, offset - start_offset))`. -/
def Scan.flush (idx : Nat) (scan : Scan Size) : H2DBucket Size :=
  { scan.last with
    ranges := scan.last.ranges ++
      [⟨idx, scan.startOffset, scan.offset - scan.startOffset⟩] }

/-- The branch of the inner loop that closes the last bucket: the range read so
far is recorded unless it is empty, and a fresh bucket is appended. -/
def Scan.cut (idx : Nat) (scan : Scan Size) : Scan Size where
  closed := scan.closed ++
    [if scan.offset - scan.startOffset > 0 then scan.flush idx else scan.last]
  last := .empty
  startOffset := scan.offset
  offset := scan.offset

/-- The body of `for meta in metas.metas`. -/
def Scan.addMeta (bucketSize : Size) (idx : Nat) (scan : Scan Size) (param : ParameterMeta Size) :
    Scan Size :=
  let s := param.alignedSize
  let scan := if scan.last.size + s > bucketSize then scan.cut idx else scan
  { scan with
    offset := scan.offset + s
    last := { scan.last with
      size := scan.last.size + s
      items := scan.last.items ++ [param] } }

/-- The body of `for idx, metas in enumerate(items.memory_buffer_metas_list)`. -/
def Scan.addBuffer (bucketSize : Size) (scan : Scan Size)
    (buffer : MemoryBufferMetas Size × Nat) : Scan Size :=
  let scan := buffer.1.metas.foldl (Scan.addMeta bucketSize buffer.2)
    { scan with startOffset := 0, offset := 0 }
  { scan with last := scan.flush buffer.2 }

/-- The scan of all buffers of one owner, from the bucket appended for it. -/
def scanOwner (bucketSize : Size) (buffers : List (MemoryBufferMetas Size)) : Scan Size :=
  buffers.zipIdx.foldl (Scan.addBuffer bucketSize) ⟨[], .empty, 0, 0⟩

/-- The owner's part of `buckets`, behind the assertion that ends its scan. -/
def ownerBuckets (bucketSize : Size) (buffers : List (MemoryBufferMetas Size)) :
    Except PyError (List (H2DBucket Size)) :=
  let scan := scanOwner bucketSize buffers
  if scan.last.size > 0 then
    .ok (scan.closed ++ [scan.last])
  else
    .error (.assertionError
      s!"buckets[-1][1].size {scan.last.size} should be greater than 0")

/-- The assertion is on the last bucket, and an owner's part is all of its scan. -/
theorem ownerBuckets_eq_ok {bucketSize : Size} {buffers : List (MemoryBufferMetas Size)}
    {own : List (H2DBucket Size)} :
    ownerBuckets bucketSize buffers = .ok own ↔ (scanOwner bucketSize buffers).last.size > 0 ∧
      (scanOwner bucketSize buffers).closed ++ [(scanOwner bucketSize buffers).last] = own := by
  unfold ownerBuckets
  simp only
  split
  · rename_i hpos
    simp [hpos]
  · rename_i hnot
    simp [hnot]

/-- The first half of `_gen_h2d_buckets`: `buckets`, owner by owner. -/
def allBuckets (bucketSize : Size) :
    GlobalMetas Size → Except PyError (List (Rank × H2DBucket Size))
  | [] => .ok []
  | (ownerRank, items) :: rest => do
      let own ← ownerBuckets bucketSize items.memoryBufferMetasList
      let others ← allBuckets bucketSize rest
      return own.map (ownerRank, ·) ++ others

omit [ToString Size] in
@[simp] theorem Scan.addMeta_offset (bucketSize : Size) (idx : Nat) (scan : Scan Size)
    (param : ParameterMeta Size) :
    (scan.addMeta bucketSize idx param).offset = scan.offset + param.alignedSize := by
  unfold Scan.addMeta
  simp only
  split <;> rfl

/-! ## The tensors of an owner and where they lie -/

/-- A tensor together with its place: the memory buffer and the offset in it. -/
structure Entry where
  idx : Nat
  offset : Nat
  param : ParameterMeta
  deriving DecidableEq, Repr, Inhabited

/-- The tensors of buffer `idx` from `offset` on, one behind the other. -/
def placeMetas (idx : Nat) : Nat → List ParameterMeta → List Entry
  | _, [] => []
  | offset, param :: rest =>
      ⟨idx, offset, param⟩ :: placeMetas idx (offset + param.alignedSize) rest

/-- The tensors of the given buffers with their places, in buffer order. -/
def placeBuffers : List (MemoryBufferMetas × Nat) → List Entry
  | [] => []
  | buffer :: rest => placeMetas buffer.2 0 buffer.1.metas ++ placeBuffers rest

/-- All tensors of an owner with their places, in buffer order. -/
def entries (buffers : List MemoryBufferMetas) : List Entry :=
  placeBuffers buffers.zipIdx

/-- Sum of the aligned sizes of a buffer's tensors. -/
def totalSize (params : List ParameterMeta) : Nat :=
  (params.map (·.alignedSize)).sum

theorem placeMetas_map_param (idx offset : Nat) (params : List ParameterMeta) :
    (placeMetas idx offset params).map Entry.param = params := by
  induction params generalizing offset with
  | nil => rfl
  | cons param rest ih => simp [placeMetas, ih]

theorem placeBuffers_map_param (buffers : List (MemoryBufferMetas × Nat)) :
    (placeBuffers buffers).map Entry.param = buffers.flatMap (·.1.metas) := by
  induction buffers with
  | nil => rfl
  | cons buffer rest ih => simp [placeBuffers, placeMetas_map_param, ih]

/-- Forgetting the places gives the owner's metas in buffer order. -/
theorem entries_map_param (buffers : List MemoryBufferMetas) :
    (entries buffers).map Entry.param = buffers.flatMap (·.metas) := by
  unfold entries
  rw [placeBuffers_map_param]
  have hfst : buffers.zipIdx.map Prod.fst = buffers := List.zipIdx_map_fst 0 buffers
  calc buffers.zipIdx.flatMap (·.1.metas)
      = (buffers.zipIdx.map Prod.fst).flatMap (·.metas) := by rw [List.flatMap_map]
    _ = buffers.flatMap (·.metas) := by rw [hfst]

end CheckpointEngine.Plan
