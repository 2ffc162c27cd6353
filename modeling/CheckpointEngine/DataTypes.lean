/-
  `DataTypes`: the records of `checkpoint_engine/data_types.py` that the modelled
  functions read, and the errors they raise.

  Counts and ranks are natural numbers, and Python integers do not overflow.  Sizes and
  offsets are natural numbers too, or integers where a header makes them negative.
-/
import CheckpointEngine.Foundation.Memory
import Mathlib.Algebra.Order.Ring.Int

set_option autoImplicit false

namespace CheckpointEngine

open CheckpointEngine.Foundation

/-- A rank of the process group. -/
abbrev Rank := Nat

/-- The memory of a host or a device. -/
abbrev Bytes := Memory UInt8

/-- The exceptions the modelled functions raise, with the text they carry. -/
inductive PyError where
  | assertionError (message : String)
  | runtimeError (message : String)
  | keyError (key : String)
  | valueError (message : String)
  | typeError (message : String)
  | attributeError (message : String)
  | overflowError (message : String)
  | osError (message : String)
  deriving DecidableEq, Repr, Inhabited

/-- The element types a checkpoint can hold. -/
inductive DType where
  | bool | uint8 | int8 | float8_e4m3fn | float8_e5m2 | float8_e8m0fnu
  | int16 | uint16 | float16 | bfloat16
  | int32 | uint32 | float32
  | int64 | uint64 | float64 | complex64
  | complex128
  deriving DecidableEq, Repr, Inhabited

/-- `dtype.itemsize`, in bytes. -/
def DType.itemsize : DType → Nat
  | .bool | .uint8 | .int8 | .float8_e4m3fn | .float8_e5m2 | .float8_e8m0fnu => 1
  | .int16 | .uint16 | .float16 | .bfloat16 => 2
  | .int32 | .uint32 | .float32 => 4
  | .int64 | .uint64 | .float64 | .complex64 => 8
  | .complex128 => 16

/-- `str(dtype)`. -/
def DType.text : DType → String
  | .bool => "torch.bool"
  | .uint8 => "torch.uint8"
  | .int8 => "torch.int8"
  | .float8_e4m3fn => "torch.float8_e4m3fn"
  | .float8_e5m2 => "torch.float8_e5m2"
  | .float8_e8m0fnu => "torch.float8_e8m0fnu"
  | .int16 => "torch.int16"
  | .uint16 => "torch.uint16"
  | .float16 => "torch.float16"
  | .bfloat16 => "torch.bfloat16"
  | .int32 => "torch.int32"
  | .uint32 => "torch.uint32"
  | .float32 => "torch.float32"
  | .int64 => "torch.int64"
  | .uint64 => "torch.uint64"
  | .float64 => "torch.float64"
  | .complex64 => "torch.complex64"
  | .complex128 => "torch.complex128"

/-- Every itemsize is a power of two up to 16. -/
theorem DType.itemsize_dvd_sixteen (dtype : DType) : dtype.itemsize ∣ 16 := by
  cases dtype <;> decide

/-- `torch.Size`. -/
abbrev TorchSize := List Nat

/-- `shape.numel()`. -/
def numel (shape : TorchSize) : Nat := shape.prod

/-- One tensor of a checkpoint; `alignedSize` is the room it takes in its
memory buffer. -/
structure ParameterMeta (Size : Type := Nat) where
  name : String
  dtype : DType
  shape : TorchSize
  alignedSize : Size
  deriving DecidableEq, Repr, Inhabited

/-- The bytes of the tensor itself, without padding. -/
def ParameterMeta.nbytes (param : ParameterMeta) : Nat :=
  param.dtype.itemsize * numel param.shape

/-- `size` bytes from `offset` of the `idx`-th memory buffer of an owner. -/
structure BucketRange (Size : Type := Nat) where
  idx : Nat
  offset : Size
  size : Size
  deriving DecidableEq, Repr, Inhabited

/-- One transfer unit: the tensors it carries and the ranges it is filled from. -/
structure H2DBucket (Size : Type := Nat) where
  size : Size
  ranges : List (BucketRange Size)
  items : List (ParameterMeta Size)
  deriving DecidableEq, Repr, Inhabited

/-- `H2DBucket(size=0, ranges=[], items=[])`. -/
def H2DBucket.empty {Size : Type} [OfNat Size 0] : H2DBucket Size := ⟨0, [], []⟩

/-- What a rank announces about one of its memory buffers. -/
structure MemoryBufferMetas (Size : Type := Nat) where
  metas : List (ParameterMeta Size)
  ptr : Nat
  size : Nat
  deriving DecidableEq, Repr, Inhabited

/-- What a rank announces about all its memory buffers. -/
structure MemoryBufferMetaList (Size : Type := Nat) where
  p2pStoreAddr : Option String
  memoryBufferMetasList : List (MemoryBufferMetas Size)
  rdmaDevice : String
  deriving DecidableEq, Repr, Inhabited

/-- `_current_global_parameter_metas`: a dictionary, in insertion order. -/
abbrev GlobalMetas (Size : Type := Nat) := List (Rank × MemoryBufferMetaList Size)

end CheckpointEngine
