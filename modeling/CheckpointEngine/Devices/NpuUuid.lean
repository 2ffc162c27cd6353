/-
  `Devices.NpuUuid`: how `npu_generate_uuid` finds the chip of its process.

  It looks for the digits of the process id as a substring of each `npu-smi` output, so a
  number that only contains them is taken for the process.
-/
import CheckpointEngine.Foundation.Numbering
import CheckpointEngine.Devices.RdmaDevices

set_option autoImplicit false

namespace CheckpointEngine.Devices

open CheckpointEngine.Foundation

/-- `str(pid)`. -/
def strPid (pid : Nat) : Text := (toString pid).toList

/-- A chip of a host: the NPU, the number of chips on it, and which of them. -/
structure Chip where
  npuId : Nat
  chipCount : Nat
  chipId : Nat
  deriving DecidableEq

/-- `npu_id * chip_count + chip_id`. -/
def Chip.number (chip : Chip) : Nat := chip.npuId * chip.chipCount + chip.chipId

/-- What the loop has found when it returns: the chip, and the place in the output behind
which its id was read. -/
structure Reading where
  chip : Chip
  position : Nat
  deriving DecidableEq

/-- A process, and where its id stands in the output. -/
structure ProcessEntry where
  pid : Nat
  position : Nat
  deriving DecidableEq

/-- The digits stand at the position and are not part of a longer number. -/
def WholeNumberAt (text : Text) (position : Nat) (digits : Text) : Prop :=
  digits <+: text.drop position ∧
    (∀ c ∈ (text.take position).getLast?, Text.isDecimal c = false) ∧
    ∀ c ∈ (text.drop (position + digits.length)).head?, Text.isDecimal c = false

instance (text : Text) (position : Nat) (digits : Text) :
    Decidable (WholeNumberAt text position digits) :=
  -- the neighbours are looked up, not sought among all characters
  @instDecidableAnd _ _ inferInstance
    (@instDecidableAnd _ _ (Option.decidableForallMem _) (Option.decidableForallMem _))

/-- The output for one NPU: a text with its process entries. -/
structure NpuOutput where
  text : Text
  entries : List ProcessEntry
  chipCount : (Text.searchNumber "Chip Count".toList text).isSome
  whole : ∀ e ∈ entries, WholeNumberAt text e.position (strPid e.pid)
  ordered : entries.Pairwise fun e e' => e.position < e'.position
  chipId : ∀ e ∈ entries, (Text.searchNumber "Chip ID".toList
    (text.drop (e.position + (strPid e.pid).length))).isSome

namespace NpuOutput

def count (o : NpuOutput) : Nat := (Text.searchNumber "Chip Count".toList o.text).get o.chipCount

/-- The entry of the process. -/
def entry? (o : NpuOutput) (pid : Nat) : Option ProcessEntry :=
  o.entries.find? fun e => e.pid = pid

/-- The `Chip ID` number behind the process id at the position. -/
def chipAfter (o : NpuOutput) (pid position : Nat) : Option Nat :=
  Text.searchNumber "Chip ID".toList (o.text.drop (position + (strPid pid).length))

/-- What is read behind the entry of the process, for the NPU the output belongs to. -/
def ownReading (o : NpuOutput) (npuId pid : Nat) : Option Reading :=
  (o.entry? pid).bind fun e => (o.chipAfter pid e.position).map fun chipId =>
    ⟨⟨npuId, o.count, chipId⟩, e.position⟩

end NpuOutput

/-- The reading behind the entry in the first output that lists the process, from NPU `npuId`
on. -/
def ownReading (pid : Nat) : Nat → List NpuOutput → Option Reading
  | _, [] => none
  | npuId, o :: rest => (o.ownReading npuId pid).or (ownReading pid (npuId + 1) rest)

/-- The digits of the process id stand at this place of the output for this NPU, as a number or
inside one. -/
def Mentions (outputs : List NpuOutput) (pid npuId position : Nat) : Prop :=
  ∃ o, outputs[npuId]? = some o ∧ strPid pid <+: o.text.drop position

/-- No place with the digits comes before this one, in this output or an earlier one. -/
structure MentionedFirst (outputs : List NpuOutput) (pid npuId position : Nat) : Prop where
  mentioned : Mentions outputs pid npuId position
  first : ∀ n p, Mentions outputs pid n p → npuId < n ∨ npuId = n ∧ position ≤ p

/-- What reading an output for NPU `npuId` gives, with the digits at the position. -/
def NpuOutput.read (o : NpuOutput) (npuId pid position : Nat) : Except DeviceError Reading :=
  match o.chipAfter pid position with
  | some chipId => .ok ⟨⟨npuId, o.count, chipId⟩, position⟩
  | none => .error (.attributeError "'NoneType' object has no attribute 'group'")

variable {outputs : List NpuOutput} {pid : Nat}

theorem MentionedFirst.unique {npuId npuId' i i' : Nat} (h : MentionedFirst outputs pid npuId i)
    (h' : MentionedFirst outputs pid npuId' i') : npuId = npuId' ∧ i = i' := by
  have hle := h.first npuId' i' h'.mentioned
  have hge := h'.first npuId i h.mentioned
  omega

/-- The NPUs of the two chips have one `Chip Count`, and both chip ids are below it. -/
def Chip.Uniform (chip chip' : Chip) : Prop :=
  chip.chipCount = chip'.chipCount ∧ chip.chipId < chip.chipCount ∧
    chip'.chipId < chip'.chipCount

/-- How many chips come before those of the NPU, where all NPUs have as many as this one. -/
def Chip.before (chip : Chip) : Nat := chip.npuId * chip.chipCount

/-- Chips of different NPUs are uniform; or, where the outputs are not so, the chip ids are not
as far apart as the two NPUs. -/
def Chip.KeepApart (chip chip' : Chip) : Prop :=
  chip.npuId ≠ chip'.npuId →
    chip.Uniform chip' ∨ (chip.chipId : Int) - chip'.chipId ≠ (chip'.before : Int) - chip.before

/-- The chips of the two processes keep apart. -/
def Apart (outputs : List NpuOutput) (pid pid' : Nat) : Prop :=
  ∀ own own', ownReading pid 0 outputs = some own → ownReading pid' 0 outputs = some own' →
    own.chip.KeepApart own'.chip

end CheckpointEngine.Devices
