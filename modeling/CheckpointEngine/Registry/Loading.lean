/-
  `Registry.Loading`: the tensors in safetensors files, `_load_checkpoint_file` and
  `_load_checkpoint` in `checkpoint_engine/pin_memory.py`.

  A file that is here is a valid one.  Safetensors files are of rank 0 and have no
  dimension to concatenate, so of each name the last weight is taken as it is, and the
  assertions compare it with the first one.
-/
import CheckpointEngine.Registry.Packing
import CheckpointEngine.Foundation.Override

set_option autoImplicit false

namespace CheckpointEngine.Registry

open CheckpointEngine.Foundation

/-! ## Files -/

/-- The entries lie one behind the other, from `offset` up to `last`. -/
def Tiles (last : Nat) : Nat → List HeaderEntry → Prop
  | offset, [] => offset = last
  | offset, entry :: rest => offset = entry.start ∧ Tiles last entry.stop rest

instance instDecidableTiles (last : Nat) :
    (offset : Nat) → (entries : List HeaderEntry) → Decidable (Tiles last offset entries)
  | offset, [] => inferInstanceAs (Decidable (offset = last))
  | offset, entry :: rest =>
      have := instDecidableTiles last entry.stop rest
      inferInstanceAs (Decidable (offset = entry.start ∧ Tiles last entry.stop rest))

/-- A valid safetensors file: every entry spans its tensor, and together they are the
bytes behind the header. -/
structure StoredFile extends SafetensorsFile where
  data : List UInt8
  length_data : data.length = nbytes
  names_nodup : (header.map (·.name)).Nodup
  spans : ∀ entry ∈ header, entry.stop = entry.start + entry.dtype.itemsize * numel entry.shape
  tiles : Tiles nbytes 0 (sortHeader header)

theorem Tiles.stop_le {last offset : Nat} {entries : List HeaderEntry}
    (h : Tiles last offset entries) :
    offset ≤ last ∧ ∀ entry ∈ entries, offset ≤ entry.start ∧ entry.stop ≤ last := by
  induction entries generalizing offset with
  | nil => exact ⟨Nat.le_of_eq h, by simp⟩
  | cons first rest ih =>
      obtain ⟨rfl, htail⟩ := h
      obtain ⟨hle, hrest⟩ := ih htail
      have hfirst := first.start_le
      refine ⟨Nat.le_trans hfirst hle, fun entry hentry => ?_⟩
      rcases List.mem_cons.mp hentry with rfl | hmem
      · exact ⟨Nat.le_refl _, hle⟩
      · obtain ⟨hstart, hstop⟩ := hrest entry hmem
        exact ⟨Nat.le_trans hfirst hstart, hstop⟩

namespace StoredFile

/-- The bytes between the `data_offsets` of an entry. -/
def bytesOf (file : StoredFile) (entry : HeaderEntry) : List UInt8 :=
  (file.data.drop entry.start).take (entry.stop - entry.start)

theorem length_bytesOf (file : StoredFile) {entry : HeaderEntry} (h : entry ∈ file.header) :
    (file.bytesOf entry).length = entry.dtype.itemsize * numel entry.shape := by
  have hmem : entry ∈ sortHeader file.header :=
    (List.perm_insertionSort _ _).mem_iff.mpr h
  have hstop := (file.tiles.stop_le.2 entry hmem).2
  have hspan := file.spans entry h
  have hdata := file.length_data
  rw [bytesOf, List.length_take, List.length_drop]
  omega

/-- `f.get_tensor(name)`. -/
def getTensor (file : StoredFile) (entry : HeaderEntry) (h : entry ∈ file.header) :
    LoadedTensor where
  name := entry.name
  dtype := entry.dtype
  shape := entry.shape
  bytes := file.bytesOf entry
  length_bytes := file.length_bytesOf h

/-- All tensors of a file. -/
def tensors (file : StoredFile) : List LoadedTensor :=
  file.header.attach.map fun entry => file.getTensor entry.1 entry.2

theorem mem_tensors {file : StoredFile} {tensor : LoadedTensor} :
    tensor ∈ file.tensors ↔
      ∃ entry, ∃ h : entry ∈ file.header, file.getTensor entry h = tensor := by
  simp [tensors]

end StoredFile

/-! ## Dictionaries of tensors -/

/-- A dictionary from names to tensors. -/
structure TensorDict where
  tensors : List LoadedTensor
  names_nodup : (tensors.map fun x => x.name).Nodup

namespace TensorDict

/-- `{}`. -/
def empty : TensorDict := ⟨[], List.nodup_nil⟩

/-- `dict[tensor.name] = tensor`. -/
def set (dict : TensorDict) (tensor : LoadedTensor) : TensorDict :=
  ⟨setItem (fun x => x.name) tensor dict.tensors, setItem_keys_nodup dict.names_nodup⟩

/-- The tensor under a name. -/
def find (dict : TensorDict) (name : String) : Option LoadedTensor :=
  lastWith (fun x => x.name) name dict.tensors

/-- `dict.update(other)`. -/
def update (dict other : TensorDict) : TensorDict where
  tensors := (dict.tensors.filter fun x => x.name ∉ other.tensors.map fun x => x.name) ++
    other.tensors
  names_nodup := by
    rw [List.map_append]
    refine List.Nodup.append ?_ other.names_nodup ?_
    · exact dict.names_nodup.sublist (List.filter_sublist.map _)
    · intro name hname hother
      obtain ⟨tensor, htensor, rfl⟩ := List.mem_map.mp hname
      have hnot := List.of_mem_filter htensor
      exact (of_decide_eq_true hnot) hother

theorem find_set (dict : TensorDict) (tensor : LoadedTensor) (name : String) :
    (dict.set tensor).find name =
      (lastWith (fun x : LoadedTensor => x.name) name [tensor]).or (dict.find name) :=
  lastWith_setItem dict.names_nodup name

theorem find_update (dict other : TensorDict) (name : String) :
    (dict.update other).find name = (other.find name).or (dict.find name) := by
  rw [find, update, lastWith_append]
  cases hother : lastWith (fun x : LoadedTensor => x.name) name other.tensors with
  | some tensor => rw [find, hother, Option.some_or, Option.some_or]
  | none =>
      rw [find, hother, Option.none_or, Option.none_or]
      refine lastWith_filter fun tensor _ hname => ?_
      rw [hname]
      exact decide_eq_true (lastWith_eq_none.mp hother)

theorem update_toParameter (dict other : TensorDict) :
    (dict.update other).tensors.map LoadedTensor.toParameter =
      updateParameters (dict.tensors.map LoadedTensor.toParameter)
        (other.tensors.map LoadedTensor.toParameter) := by
  rw [update, updateParameters, List.map_append, List.filter_map, List.map_map]
  rfl

end TensorDict

/-! ## Loading -/

/-- The files of a machine. -/
structure Disk where
  /-- the file at a path, or what opening it raises -/
  file : String → Except PyError StoredFile
  /-- what reading an array file raises; no safetensors file is one -/
  numpyRaises : String → PyError

/-- The tensors in the file at a path, where there is one. -/
def Disk.tensors (disk : Disk) (filePath : String) : List LoadedTensor :=
  match disk.file filePath with
  | .ok file => file.tensors
  | .error _ => []

/-- `_load_checkpoint_file`. -/
def loadCheckpointFile (disk : Disk) (filePath : String) : Except PyError (List LoadedTensor) :=
  if ".npy".toList.isSuffixOf filePath.toList then
    .error (disk.numpyRaises filePath)
  else if ".safetensors".toList.isSuffixOf filePath.toList then
    (disk.file filePath).map StoredFile.tensors
  else
    .error (.valueError s!"unsupported file format: {filePath}")

/-- What the loop over the files has gathered. -/
structure Gathered where
  /-- `parameters_with_tp`, of rank 0 -/
  weights : TensorDict
  /-- `parameter_metas` -/
  parameterMetas : List Parameter

/-- One iteration of the loop over the tensors of a file. -/
def Gathered.add (gathered : Gathered) (tensor : LoadedTensor) : Gathered where
  weights := gathered.weights.set tensor
  parameterMetas :=
    if tensor.name ∈ gathered.parameterMetas.map (·.name) then gathered.parameterMetas
    else gathered.parameterMetas ++ [tensor.toParameter]

/-- The assertions on a parameter that has been loaded. -/
def checkParameter (parameterMetas : List Parameter) (parameter : LoadedTensor) :
    Except PyError Unit :=
  match parameterMetas.find? fun x => x.name = parameter.name with
  | none => .error (.assertionError s!"parameter {parameter.name} not found in parameter_metas")
  | some param =>
      if param.shape ≠ parameter.shape then
        .error (.assertionError (s!"parameter {parameter.name} shape mismatch, " ++
          s!"torch.Size({param.shape}) != torch.Size({parameter.shape})"))
      else if param.dtype ≠ parameter.dtype then
        .error (.assertionError (s!"parameter {parameter.name} dtype mismatch, " ++
          s!"{param.dtype.text} != {parameter.dtype.text}"))
      else
        .ok ()

/-- `_load_checkpoint`. -/
def loadCheckpoint (disk : Disk) (files : List String) : Except PyError TensorDict := do
  let loaded ← files.mapM (loadCheckpointFile disk)
  let gathered := loaded.flatten.foldl Gathered.add ⟨.empty, []⟩
  gathered.weights.tensors.forM (checkParameter gathered.parameterMetas)
  return gathered.weights

theorem loadCheckpointFile_ok {disk : Disk} {filePath : String} {tensors : List LoadedTensor}
    (h : loadCheckpointFile disk filePath = .ok tensors) :
    tensors = disk.tensors filePath := by
  unfold loadCheckpointFile at h
  split at h
  · cases h
  · split at h
    · unfold Disk.tensors
      cases hfile : disk.file filePath with
      | error error =>
          rw [hfile] at h
          cases h
      | ok file =>
          rw [hfile] at h
          exact (Except.ok.inj h).symm
    · cases h

theorem find_foldl_add (tensors : List LoadedTensor) (gathered : Gathered) (name : String) :
    (tensors.foldl Gathered.add gathered).weights.find name =
      (lastWith (fun x => x.name) name tensors).or (gathered.weights.find name) := by
  induction tensors generalizing gathered with
  | nil => rfl
  | cons tensor rest ih =>
      have hcons : lastWith (fun x : LoadedTensor => x.name) name (tensor :: rest) =
          (lastWith (fun x => x.name) name rest).or (lastWith (fun x => x.name) name [tensor]) :=
        lastWith_append name [tensor] rest
      rw [List.foldl_cons, ih, hcons, Gathered.add, TensorDict.find_set, Option.or_assoc]

/-- Of each name the last file with it is loaded. -/
theorem loadCheckpoint_find {disk : Disk} {files : List String} {dict : TensorDict}
    (h : loadCheckpoint disk files = .ok dict) (name : String) :
    dict.find name = lastWith (fun x => x.name) name (files.flatMap disk.tensors) := by
  obtain ⟨loaded, hloaded, h⟩ := bind_eq_ok.mp h
  obtain ⟨-, -, h⟩ := bind_eq_ok.mp h
  obtain rfl := Except.ok.inj h
  have hfiles : loaded = files.map disk.tensors :=
    mapM_eq_map hloaded fun _ _ hfile => loadCheckpointFile_ok hfile
  rw [find_foldl_add, hfiles, ← List.flatMap_def]
  exact Option.or_none

end CheckpointEngine.Registry
