/-
  `Registry.Overriding`: pinning files in place gives other weights than copying them
  when a tensor of such a file is overridden.

  Copied tensors are merged into one dictionary, in the order of the files and with the
  named tensors on top.  Files pinned in place are delivered behind all that is copied.
-/
import CheckpointEngine.Registry.Weights

set_option autoImplicit false

namespace CheckpointEngine.Registry

open CheckpointEngine.Foundation

/-- No tensor of a file pinned in place is overridden with other bytes: not by the tensor
given under its name, and if none is given, not by the last of all files with the name. -/
def KeepsInplace (disk : Disk) (files : List String) (namedTensors : TensorDict) : Prop :=
  ∀ name tensor, disk.lastTensor (files.filter inplacePath) name = some tensor →
    (∀ given, namedTensors.find name = some given → given.bytes = tensor.bytes) ∧
      (namedTensors.find name = none →
        ∀ last, disk.lastTensor files name = some last → last.bytes = tensor.bytes)

theorem filesToNormalPin_inplace (files : List String) :
    filesToNormalPin files true = files.filter fun file => !inplacePath file := by
  refine List.filter_congr fun file hfile => ?_
  simp [filesToInplacePin, hfile]

theorem filesToNormalPin_copied (files : List String) : filesToNormalPin files false = files := by
  simp [filesToNormalPin, filesToInplacePin]

namespace Disk

variable {disk : Disk} {files : List String} {name : String}

theorem notMem_names_of_lastTensor (h : disk.lastTensor files name = none) {file : String}
    (hfile : file ∈ files) : name ∉ (disk.tensors file).map fun x => x.name := by
  have hall := lastWith_eq_none.mp h
  rw [List.map_flatMap] at hall
  exact fun hmem => hall (List.mem_flatMap.mpr ⟨file, hfile, hmem⟩)

/-- A name that no file pinned in place has is in the other files. -/
theorem lastTensor_filter (h : disk.lastTensor (files.filter inplacePath) name = none) :
    disk.lastTensor (files.filter fun file => !inplacePath file) name =
      disk.lastTensor files name := by
  refine lastWith_flatMap_filter fun file hfile hinplace => ?_
  refine notMem_names_of_lastTensor h (List.mem_filter.mpr ⟨hfile, ?_⟩)
  simpa using hinplace

theorem exists_lastTensor {tensor : LoadedTensor}
    (h : disk.lastTensor (files.filter inplacePath) name = some tensor) :
    ∃ last, disk.lastTensor files name = some last := by
  obtain ⟨hmem, hname⟩ := lastWith_eq_some h
  obtain ⟨file, hfile, htensor⟩ := List.mem_flatMap.mp hmem
  cases hlast : disk.lastTensor files name with
  | some last => exact ⟨last, rfl⟩
  | none =>
      have hnot := notMem_names_of_lastTensor hlast (List.mem_of_mem_filter hfile)
      exact absurd (List.mem_map.mpr ⟨tensor, htensor, hname⟩) hnot

end Disk

/-- For one name: the last tensor pinned in place has the bytes that copying gives. -/
theorem weights_agree_iff_of_lastTensor {disk : Disk} {files : List String}
    {namedTensors : TensorDict} {name : String} {tensor : LoadedTensor}
    (h : disk.lastTensor (files.filter inplacePath) name = some tensor) :
    some tensor.bytes = ((namedTensors.find name).or (disk.lastTensor files name)).map (·.bytes) ↔
      (∀ given, namedTensors.find name = some given → given.bytes = tensor.bytes) ∧
        (namedTensors.find name = none →
          ∀ last, disk.lastTensor files name = some last → last.bytes = tensor.bytes) := by
  obtain ⟨last, hlast⟩ := Disk.exists_lastTensor h
  rw [hlast]
  cases namedTensors.find name with
  | none => simp [eq_comm]
  | some given => simp [eq_comm]

/-- Two registrations of the same files and tensors, one with files pinned in place and
one without: they give the same weights just when no tensor pinned in place is overridden
with other bytes. -/
theorem inplace_weights_agree_iff {disk : Disk} {device device' : Device} {files : List String}
    {namedTensors : TensorDict} {start start' : Bytes} {loaded loaded' : Loaded}
    (h : RegistersCheckpoint disk device files namedTensors true start loaded)
    (hapart : loaded.Separate)
    (h' : RegistersCheckpoint disk device' files namedTensors false start' loaded')
    (hapart' : loaded'.Separate) :
    (∀ name, loaded.weight name = loaded'.weight name) ↔
      KeepsInplace disk files namedTensors := by
  have hinplace : ∀ name, loaded.weight name =
      ((disk.lastTensor (files.filter inplacePath) name).or ((namedTensors.find name).or
        (disk.lastTensor (files.filter fun file => !inplacePath file) name))).map (·.bytes) := by
    intro name
    rw [h.weight hapart, filesToNormalPin_inplace]
    rfl
  have hcopied : ∀ name, loaded'.weight name =
      ((namedTensors.find name).or (disk.lastTensor files name)).map (·.bytes) := by
    intro name
    rw [h'.weight hapart', filesToNormalPin_copied]
    rfl
  refine forall_congr' fun name => ?_
  rw [hinplace, hcopied]
  cases hlast : disk.lastTensor (files.filter inplacePath) name with
  | none =>
      rw [Option.none_or, Disk.lastTensor_filter hlast]
      simp
  | some tensor =>
      rw [Option.some_or, Option.map_some, weights_agree_iff_of_lastTensor hlast]
      simp

/-! ## A file with one tensor, and a tensor given under its name -/

/-- A file with the tensor `w`, a one. -/
def oneFile : StoredFile where
  header := [⟨"w", .uint8, [1], 0, 1, 1, rfl⟩]
  nbytes := 1
  data := [1]
  length_data := rfl
  names_nodup := by decide
  spans := by decide
  tiles := ⟨rfl, rfl⟩

def oneDisk : Disk where
  file _ := .ok oneFile
  numpyRaises filePath := .keyError filePath

def oneDevice : Device where
  allocate k := k <<< 30
  pinRaises _ := none

/-- The tensor `w` with this byte. -/
def given (byte : UInt8) : TensorDict where
  tensors := [⟨⟨"w", .uint8, [1]⟩, [byte], rfl⟩]
  names_nodup := List.nodup_singleton _

def shmFile : List String := ["/dev/shm/model.safetensors"]

/-- Pinned in place, the buffer of the file comes behind that of the given tensor. -/
theorem registerCheckpoint_oneFile_inplace :
    registerCheckpoint (oneDisk.host oneDevice) shmFile [⟨"w", .uint8, [1]⟩] [] true =
      .ok [⟨⟨0, 256⟩, 256, [⟨"w", .uint8, [1], 256⟩], false⟩,
        ⟨⟨1 <<< 30, 1⟩, 1, [⟨"w", .uint8, [1], 1⟩], true⟩] := by
  decide +kernel

theorem registerCheckpoint_oneFile_copied :
    registerCheckpoint (oneDisk.host oneDevice) shmFile [⟨"w", .uint8, [1]⟩] [] false =
      .ok [⟨⟨0, 256⟩, 256, [⟨"w", .uint8, [1], 256⟩], false⟩] := by
  decide +kernel

/-- Both registrations return, whatever the given byte. -/
theorem exists_registers_oneFile (byte : UInt8) :
    (∃ loaded : Loaded, loaded.Separate ∧
      RegistersCheckpoint oneDisk oneDevice shmFile (given byte) true (fun _ => 0) loaded) ∧
      ∃ loaded : Loaded, loaded.Separate ∧
        RegistersCheckpoint oneDisk oneDevice shmFile (given byte) false (fun _ => 0) loaded := by
  refine ⟨?inplace, ?copied⟩
  case inplace =>
    obtain ⟨memory, hregisters⟩ := @exists_registersCheckpoint oneDisk oneDevice shmFile
      (given byte) true (fun _ => 0) _ registerCheckpoint_oneFile_inplace (by decide)
    refine ⟨_, ?_, hregisters⟩
    refine List.pairwise_pair.mpr ?_
    rintro a ⟨⟨-, hlt⟩, ⟨hle, -⟩⟩
    simp only [Tensor.region] at hlt hle
    omega
  case copied =>
    obtain ⟨memory, hregisters⟩ := @exists_registersCheckpoint oneDisk oneDevice shmFile
      (given byte) false (fun _ => 0) _ registerCheckpoint_oneFile_copied (by decide)
    refine ⟨_, ?_, hregisters⟩
    exact List.pairwise_singleton _ _

/-- With a two for `w`, the file pinned in place still gives a one. -/
theorem inplace_weights_differ : ∃ loaded loaded' : Loaded,
    RegistersCheckpoint oneDisk oneDevice shmFile (given 2) true (fun _ => 0) loaded ∧
      loaded.Separate ∧
      RegistersCheckpoint oneDisk oneDevice shmFile (given 2) false (fun _ => 0) loaded' ∧
      loaded'.Separate ∧
      loaded.weight "w" = some [1] ∧ loaded'.weight "w" = some [2] := by
  obtain ⟨⟨loaded, hapart, h⟩, loaded', hapart', h'⟩ := exists_registers_oneFile 2
  refine ⟨loaded, loaded', h, hapart, h', hapart', ?_, ?_⟩
  · rw [h.weight hapart]
    decide
  · rw [h'.weight hapart']
    decide

/-- With a one for `w`, nothing is overridden with other bytes. -/
theorem inplace_weights_agree_oneFile : ∃ loaded loaded' : Loaded,
    RegistersCheckpoint oneDisk oneDevice shmFile (given 1) true (fun _ => 0) loaded ∧
      RegistersCheckpoint oneDisk oneDevice shmFile (given 1) false (fun _ => 0) loaded' ∧
      ∀ name, loaded.weight name = loaded'.weight name := by
  obtain ⟨⟨loaded, hapart, h⟩, loaded', hapart', h'⟩ := exists_registers_oneFile 1
  refine ⟨loaded, loaded', h, h', (inplace_weights_agree_iff h hapart h' hapart').mpr ?_⟩
  have hfile : ∀ tensor ∈ shmFile.flatMap oneDisk.tensors, tensor.bytes = [1] := by decide
  have hgiven : ∀ tensor ∈ (given 1).tensors, tensor.bytes = [1] := by decide
  intro name tensor htensor
  have hbytes : tensor.bytes = [1] := hfile tensor (lastWith_eq_some htensor).1
  refine ⟨fun other hother => ?_, fun _ last hlast => ?_⟩
  · exact (hgiven other (lastWith_eq_some hother).1).trans hbytes.symm
  · exact (hfile last (lastWith_eq_some hlast).1).trans hbytes.symm

end CheckpointEngine.Registry
