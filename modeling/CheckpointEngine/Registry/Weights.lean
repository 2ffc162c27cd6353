/-
  `Registry.Weights`: which bytes a name has in the buffers of a registered checkpoint.

  A registration ends in one of many memories, by the order of its allocations and
  copies; `RegistersCheckpoint` holds of each of them.  The buffers are those of
  `registerCheckpoint`.
-/
import CheckpointEngine.Registry.Loading
import CheckpointEngine.Registry.Copying

set_option autoImplicit false

namespace CheckpointEngine.Registry

open CheckpointEngine.Foundation

/-! ## Registering with contents -/

/-- Where new buffers go, and what pinning raises. -/
structure Device where
  /-- where the `k`-th new buffer lies -/
  allocate : Nat → Nat
  /-- what `_pin` raises for a file -/
  pinRaises : String → Option PyError

/-- What registration finds, without the contents of the tensors. -/
def Disk.host (disk : Disk) (device : Device) : Host where
  loadCheckpoint files :=
    (loadCheckpoint disk files).map fun dict => dict.tensors.map LoadedTensor.toParameter
  safetensors filePath := (disk.file filePath).map StoredFile.toSafetensorsFile
  allocate := device.allocate
  pinRaises := device.pinRaises

/-- Memory buffers, and the memory they are in. -/
structure Loaded where
  buffers : List MemoryBuffer
  memory : Bytes

/-- What `_normal_pin_memory` can return, by the order of its allocations and copies. -/
def NormalPinsMemory (disk : Disk) (device : Device) (files : List String)
    (namedTensors : TensorDict) (start : Bytes) (loaded : Loaded) : Prop :=
  ∃ dict, loadCheckpoint disk files = .ok dict ∧
    ∃ s, (pinning (disk.host device) (dict.update namedTensors).tensors [] start).Reachable s ∧
      (pinning (disk.host device) (dict.update namedTensors).tensors [] start).Final s ∧
      s.raised = none ∧ loaded = ⟨s.memoryBuffers, s.memory⟩

/-- The bytes behind the header of a file, where they are mapped. -/
def Disk.mapped (disk : Disk) (filePath : String) (b : MemoryBuffer) : Write UInt8 :=
  match disk.file filePath with
  | .ok file => ⟨b.buffer.ptr, file.data⟩
  | .error _ => ⟨b.buffer.ptr, []⟩

/-- What `_inplace_pin_memory` can return.  A file is removed, which can be done once. -/
def InplacePinsMemory (disk : Disk) (device : Device) (files : List String) (first : Nat)
    (start : Bytes) (loaded : Loaded) : Prop :=
  files.Nodup ∧
    (files.zipIdx.mapM fun (file, idx) =>
      parseAndPin (disk.host device) (device.allocate (first + idx)) file) = .ok loaded.buffers ∧
    loaded.memory = start.writeAll (List.zipWith disk.mapped files loaded.buffers)

/-- `files_to_inplace_pin`. -/
def filesToInplacePin (files : List String) (inplacePin : Bool) : List String :=
  if inplacePin then files.filter inplacePath else []

/-- `files_to_normal_pin`. -/
def filesToNormalPin (files : List String) (inplacePin : Bool) : List String :=
  files.filter (· ∉ filesToInplacePin files inplacePin)

/-- What `_register_checkpoint` can return, without a shared pool. -/
def RegistersCheckpoint (disk : Disk) (device : Device) (files : List String)
    (namedTensors : TensorDict) (inplacePin : Bool) (start : Bytes) (loaded : Loaded) : Prop :=
  if files = [] ∧ namedTensors.tensors = [] then
    loaded = ⟨[], start⟩
  else
    ∃ normal inplace,
      (if filesToNormalPin files inplacePin = [] ∧ namedTensors.tensors = [] then
        normal = ⟨[], start⟩
      else
        NormalPinsMemory disk device (filesToNormalPin files inplacePin) namedTensors start
          normal) ∧
      InplacePinsMemory disk device (filesToInplacePin files inplacePin) normal.buffers.length
        normal.memory inplace ∧
      loaded = ⟨normal.buffers ++ inplace.buffers, inplace.memory⟩

/-- The tensors of a buffer as they are delivered. -/
def MemoryBuffer.delivered (memory : Bytes) (b : MemoryBuffer) : List (String × List UInt8) :=
  b.metas.zipIdx.map fun (param, k) =>
    (param.name, memory.read (b.buffer.ptr + offsetAt b.metas k) param.nbytes)

/-- All tensors in the order of buffers and metas. -/
def Loaded.delivered (loaded : Loaded) : List (String × List UInt8) :=
  loaded.buffers.flatMap (·.delivered loaded.memory)

/-- The bytes that are delivered last under a name. -/
def Loaded.weight (loaded : Loaded) (name : String) : Option (List UInt8) :=
  (lastWith Prod.fst name loaded.delivered).map Prod.snd

/-- No two buffers overlap. -/
def Loaded.Separate (loaded : Loaded) : Prop :=
  loaded.buffers.Pairwise fun b b' => b.buffer.region.Apart b'.buffer.region

/-! ## The buffers are those of `registerCheckpoint` -/

section Returned

variable {disk : Disk} {device : Device} {files : List String} {namedTensors : TensorDict}
  {inplacePin : Bool} {start : Bytes} {loaded : Loaded}

/-- Without parameters nothing is done but raising. -/
theorem pinning_raised {host : Host} {shared : List MemoryBuffer} {s : PinState}
    (h : (pinning host [] shared start).Reachable s) : s.raised ≠ none ∧ s.futures = [] := by
  refine h.invariant (I := fun s => s.raised ≠ none ∧ s.futures = []) ?_ ?_
  · simp [pinning, PinState.start]
  · rintro s completion t - ⟨hraised, hfutures⟩ hstep
    cases completion with
    | registerPinMemory idx =>
        obtain ⟨⟨hidx, -⟩, -⟩ := Option.ite_none_right_eq_some.mp hstep
        rw [hfutures] at hidx
        cases hidx
    | registerTensor task =>
        obtain ⟨write, -, rfl⟩ := Option.map_eq_some_iff.mp hstep
        exact ⟨hraised, hfutures⟩

/-- Whatever the order, the buffers that are returned are the ones of `normalPinMemory`,
and where they do not overlap they hold all parameters. -/
theorem NormalPinsMemory.lossless
    (h : NormalPinsMemory disk device files namedTensors start loaded) :
    ∃ dict, loadCheckpoint disk files = .ok dict ∧
      normalPinMemory (disk.host device) files
        (namedTensors.tensors.map LoadedTensor.toParameter) [] = .ok loaded.buffers ∧
      (loaded.Separate →
        Lossless (dict.update namedTensors).tensors loaded.buffers loaded.memory) := by
  obtain ⟨dict, hdict, s, hs, hfinal, hraised, rfl⟩ := h
  have hne : (dict.update namedTensors).tensors ≠ [] := by
    intro hempty
    rw [hempty] at hs
    exact (pinning_raised hs).1 hraised
  have hnames := (dict.update namedTensors).names_nodup
  obtain ⟨bs, hbs, hsizes⟩ := exists_pinnedBuffers_new (disk.host device)
    (packBuckets ((dict.update namedTensors).tensors.map LoadedTensor.toParameter))
  obtain ⟨hbuffers, -⟩ := (pinInv hne hnames hbs hs).final hbs hfinal
  refine ⟨dict, hdict, ?_, fun hseparate => ?_⟩
  · have hload : (disk.host device).loadCheckpoint files =
        .ok (dict.tensors.map LoadedTensor.toParameter) := by
      simp [Disk.host, hdict, Except.map]
    rw [TensorDict.update_toParameter] at hbs
    rw [normalPinMemory_eq hload, hbs, hbuffers]
    rw [← TensorDict.update_toParameter]
    simpa using hne
  · rw [Loaded.Separate, hbuffers] at hseparate
    obtain ⟨-, -, -, -, hmemory⟩ := pinning_final hne hnames hbs hsizes hseparate hs hfinal
    rw [hbuffers, hmemory]
    exact Registry.lossless hnames hbs hsizes hseparate

theorem RegistersCheckpoint.returned
    (h : RegistersCheckpoint disk device files namedTensors inplacePin start loaded) :
    registerCheckpoint (disk.host device) files
      (namedTensors.tensors.map LoadedTensor.toParameter) [] inplacePin = .ok loaded.buffers := by
  unfold RegistersCheckpoint at h
  unfold registerCheckpoint
  split at h
  · next hempty =>
      obtain ⟨rfl, hnamed⟩ := hempty
      rw [h, hnamed]
      rfl
  · next hsome =>
      obtain ⟨normal, inplace, hnormal, ⟨-, hinplace, -⟩, rfl⟩ := h
      rw [if_neg (by simpa using hsome)]
      refine bind_eq_ok.mpr ⟨normal.buffers, ?_, bind_eq_ok.mpr ⟨inplace.buffers, hinplace, rfl⟩⟩
      change (if (filesToNormalPin files inplacePin).isEmpty && _ then _ else _) = _
      split at hnormal
      · next hnone =>
          rw [if_pos (by simpa using hnone), hnormal]
      · next hsome =>
          obtain ⟨-, -, hreturned, -⟩ := hnormal.lossless
          rw [if_neg (by simpa using hsome)]
          exact hreturned

theorem exists_normalPinsMemory {buffers : List MemoryBuffer}
    (h : normalPinMemory (disk.host device) files
      (namedTensors.tensors.map LoadedTensor.toParameter) [] = .ok buffers) :
    ∃ memory, NormalPinsMemory disk device files namedTensors start ⟨buffers, memory⟩ := by
  obtain ⟨parameters, hload, -⟩ := bind_eq_ok.mp h
  cases hdict : loadCheckpoint disk files with
  | error error =>
      simp only [Disk.host, hdict, Except.map] at hload
      cases hload
  | ok dict =>
      simp only [Disk.host, hdict, Except.map] at hload
      obtain rfl := Except.ok.inj hload
      have hne : (dict.update namedTensors).tensors ≠ [] := by
        intro hempty
        have hnone : updateParameters (dict.tensors.map LoadedTensor.toParameter)
            (namedTensors.tensors.map LoadedTensor.toParameter) = [] := by
          rw [← TensorDict.update_toParameter, hempty, List.map_nil]
        simp [normalPinMemory, Disk.host, hdict, Except.map, hnone, Bind.bind, Except.bind] at h
      have hnames := (dict.update namedTensors).names_nodup
      have hbs : pinnedBuffers (disk.host device) []
          (packBuckets ((dict.update namedTensors).tensors.map LoadedTensor.toParameter)) =
            .ok buffers := by
        rw [TensorDict.update_toParameter, ← h]
        refine (normalPinMemory_eq (by simp [Disk.host, hdict, Except.map]) ?_).symm
        rw [← TensorDict.update_toParameter]
        simpa using hne
      have hdescends := @pinning_descends _ _ _ _ start hne hnames hbs
      obtain ⟨s, hsteps, hfinal⟩ := hdescends.exists_final Machine.Reachable.init
      have hs := Machine.Reachable.init.steps hsteps
      have hinv := pinInv hne hnames hbs hs
      obtain ⟨hbuffers, -⟩ := hinv.final hbs hfinal
      exact ⟨s.memory, dict, hdict, s, hs, hfinal, hinv.raised, by rw [hbuffers]⟩

/-- Where `registerCheckpoint` returns, and no file is removed twice, there is a run that
returns the same buffers. -/
theorem exists_registersCheckpoint {buffers : List MemoryBuffer}
    (h : registerCheckpoint (disk.host device) files
      (namedTensors.tensors.map LoadedTensor.toParameter) [] inplacePin = .ok buffers)
    (honce : (filesToInplacePin files inplacePin).Nodup) :
    ∃ memory,
      RegistersCheckpoint disk device files namedTensors inplacePin start ⟨buffers, memory⟩ := by
  unfold RegistersCheckpoint
  unfold registerCheckpoint at h
  split at h
  · next hempty =>
      obtain rfl := Except.ok.inj h
      exact ⟨start, (if_pos (by simpa using hempty)).mpr rfl⟩
  · next hsome =>
      obtain ⟨normal, hnormal, h⟩ := bind_eq_ok.mp h
      obtain ⟨inplace, hinplace, h⟩ := bind_eq_ok.mp h
      obtain rfl : normal ++ inplace = buffers := Except.ok.inj h
      have hpins : ∃ memory,
          if filesToNormalPin files inplacePin = [] ∧ namedTensors.tensors = [] then
            (⟨normal, memory⟩ : Loaded) = ⟨[], start⟩
          else
            NormalPinsMemory disk device (filesToNormalPin files inplacePin) namedTensors start
              ⟨normal, memory⟩ := by
        change (if (filesToNormalPin files inplacePin).isEmpty && _ then _ else _) = _ at hnormal
        split at hnormal
        · next hnone =>
            obtain rfl := Except.ok.inj hnormal
            exact ⟨start, (if_pos (by simpa using hnone)).mpr rfl⟩
        · next hsome =>
            obtain ⟨memory, hpins⟩ := exists_normalPinsMemory hnormal
            exact ⟨memory, (if_neg (by simpa using hsome)).mpr hpins⟩
      obtain ⟨memory, hpins⟩ := hpins
      refine ⟨memory.writeAll
        (List.zipWith disk.mapped (filesToInplacePin files inplacePin) inplace), ?_⟩
      refine (if_neg (by simpa using hsome)).mpr ?_
      exact ⟨⟨normal, memory⟩, ⟨inplace, _⟩, hpins, ⟨honce, hinplace, rfl⟩, rfl⟩

end Returned

/-! ## Copied tensors -/

/-- A tensor under its name. -/
def LoadedTensor.entry (tensor : LoadedTensor) : String × List UInt8 := (tensor.name, tensor.bytes)

theorem lastWith_entry (name : String) (tensors : List LoadedTensor) :
    lastWith Prod.fst name (tensors.map LoadedTensor.entry) =
      (lastWith (fun x => x.name) name tensors).map LoadedTensor.entry :=
  lastWith_map LoadedTensor.entry (fun _ => rfl) name tensors

theorem getElem?_delivered {memory : Bytes} {b : MemoryBuffer} {k : Nat} :
    (b.delivered memory)[k]? = (b.metas[k]?).map fun param =>
      (param.name, memory.read (b.buffer.ptr + offsetAt b.metas k) param.nbytes) := by
  simp [MemoryBuffer.delivered, List.getElem?_zipIdx, Function.comp_def]

theorem delivered_names (memory : Bytes) (b : MemoryBuffer) :
    (b.delivered memory).map Prod.fst = b.metas.map (·.name) := by
  refine List.ext_getElem? fun k => ?_
  rw [List.getElem?_map, getElem?_delivered, List.getElem?_map, Option.map_map]
  rfl

/-- Only the memory inside a buffer matters for what it delivers. -/
theorem delivered_congr {memory memory' : Bytes} {b : MemoryBuffer}
    (hinside : ∀ k param, b.metas[k]? = some param →
      offsetAt b.metas k + param.nbytes ≤ b.buffer.nbytes)
    (hsame : ∀ j < b.buffer.nbytes, memory (b.buffer.ptr + j) = memory' (b.buffer.ptr + j)) :
    b.delivered memory = b.delivered memory' := by
  refine List.ext_getElem? fun k => ?_
  rw [getElem?_delivered, getElem?_delivered]
  cases hparam : b.metas[k]? with
  | none => rfl
  | some param =>
      have hle := hinside k param hparam
      have hread : memory.read (b.buffer.ptr + offsetAt b.metas k) param.nbytes =
          memory'.read (b.buffer.ptr + offsetAt b.metas k) param.nbytes := by
        refine Memory.read_congr fun j hj => ?_
        rw [Nat.add_assoc]
        exact hsame _ (by omega)
      rw [Option.map_some, Option.map_some, hread]

theorem Lossless.inside {parameters : List LoadedTensor} {buffers : List MemoryBuffer}
    {memory : Bytes} (h : Lossless parameters buffers memory) {b : MemoryBuffer}
    (hb : b ∈ buffers) {k : Nat} {param : ParameterMeta} (hparam : b.metas[k]? = some param) :
    offsetAt b.metas k + param.nbytes ≤ b.buffer.nbytes := by
  obtain ⟨-, hle, hend⟩ := h.aligned b hb k param hparam
  omega

/-- Buffers that hold all parameters deliver each under its name. -/
theorem Lossless.delivered {parameters : List LoadedTensor} {buffers : List MemoryBuffer}
    {memory : Bytes} (h : Lossless parameters buffers memory)
    (hnames : (parameters.map fun x => x.name).Nodup) (name : String) :
    lastWith Prod.fst name (buffers.flatMap (·.delivered memory)) =
      (lastWith (fun x => x.name) name parameters).map LoadedTensor.entry := by
  have hentry : ∀ b ∈ buffers, ∀ (k : Nat) (param : ParameterMeta), b.metas[k]? = some param →
      ∃ tensor ∈ parameters, tensor.toParameter.packed = param ∧
        (b.delivered memory)[k]? = some tensor.entry := by
    intro b hb k param hparam
    obtain ⟨tensor, htensor, rfl, hread⟩ := h.bytes b hb k param hparam
    refine ⟨tensor, htensor, rfl, ?_⟩
    rw [getElem?_delivered, hparam, Option.map_some, hread]
    rfl
  have hperm : ((buffers.flatMap (·.delivered memory)).map Prod.fst).Perm
      (parameters.map fun x => x.name) := by
    have hpacked : (parameters.map fun x => x.toParameter.packed).map (·.name) =
        parameters.map fun x => x.name := by
      rw [List.map_map]
      rfl
    have hall := h.complete.map (·.name)
    rw [List.map_flatMap, hpacked] at hall
    rw [List.map_flatMap]
    simpa only [delivered_names] using hall
  rw [← lastWith_entry]
  refine lastWith_congr (hperm.nodup_iff.mpr hnames) (fun x => ?_) name
  constructor
  · intro hx
    obtain ⟨b, hb, hx⟩ := List.mem_flatMap.mp hx
    obtain ⟨k, hk⟩ := List.mem_iff_getElem?.mp hx
    have hparam := hk
    rw [getElem?_delivered, Option.map_eq_some_iff] at hparam
    obtain ⟨param, hparam, -⟩ := hparam
    obtain ⟨tensor, htensor, -, hdelivered⟩ := hentry b hb k param hparam
    rw [hk] at hdelivered
    rw [Option.some.inj hdelivered]
    exact List.mem_map_of_mem htensor
  · intro hx
    obtain ⟨tensor, htensor, rfl⟩ := List.mem_map.mp hx
    have hmeta : tensor.toParameter.packed ∈ buffers.flatMap (·.metas) :=
      h.complete.mem_iff.mpr (List.mem_map_of_mem htensor)
    obtain ⟨b, hb, hmeta⟩ := List.mem_flatMap.mp hmeta
    obtain ⟨k, hk⟩ := List.mem_iff_getElem?.mp hmeta
    obtain ⟨other, hother, hpacked, hdelivered⟩ := hentry b hb k _ hk
    have hname : other.name = tensor.name := congrArg ParameterMeta.name hpacked
    obtain rfl := List.inj_on_of_nodup_map hnames hother htensor hname
    exact List.mem_flatMap.mpr ⟨b, hb, List.mem_of_getElem? hdelivered⟩

/-! ## Files pinned in place -/

/-- The meta of an entry of a file pinned in place. -/
def HeaderEntry.param {Size : Type} [Add Size] (entry : HeaderEntry Size) : ParameterMeta Size :=
  ⟨entry.name, entry.dtype, entry.shape, entry.size⟩

theorem parseHeader_ok {offset last : Nat} {entries : List HeaderEntry}
    {metas : List ParameterMeta} (h : parseHeader offset entries = .ok (last, metas)) :
    Tiles last offset entries ∧ metas = entries.map HeaderEntry.param := by
  induction entries generalizing offset metas with
  | nil =>
      obtain ⟨rfl, rfl⟩ := Prod.mk.inj (Except.ok.inj h)
      exact ⟨rfl, rfl⟩
  | cons entry rest ih =>
      unfold parseHeader at h
      split at h
      · next hstart =>
          obtain ⟨⟨last', metas'⟩, hrest, h⟩ := bind_eq_ok.mp h
          obtain ⟨rfl, rfl⟩ := Prod.mk.inj (Except.ok.inj h)
          obtain ⟨htiles, rfl⟩ := ih hrest
          exact ⟨⟨hstart, htiles⟩, rfl⟩
      · cases h

/-- The running offset of a meta is where the entry starts. -/
theorem Tiles.offsetAt {last offset : Nat} {entries : List HeaderEntry}
    (h : Tiles last offset entries) {k : Nat} {entry : HeaderEntry}
    (hk : entries[k]? = some entry) :
    offset + offsetAt (entries.map HeaderEntry.param) k = entry.start := by
  induction entries generalizing offset k with
  | nil => cases hk
  | cons first rest ih =>
      obtain ⟨rfl, htail⟩ := h
      cases k with
      | zero =>
          obtain rfl := Option.some.inj hk
          rfl
      | succ k =>
          have hrest := ih htail hk
          have hstop := first.start_add_size
          have hload : Registry.offsetAt ((first :: rest).map HeaderEntry.param) (k + 1) =
              first.size + Registry.offsetAt (rest.map HeaderEntry.param) k := by
            rw [Registry.offsetAt, List.map_cons, List.take_succ_cons, load_cons]
            rfl
          omega

theorem parseAndPin_ok {host : Host} {ptr : Nat} {filePath : String} {b : MemoryBuffer}
    (h : parseAndPin host ptr filePath = .ok b) :
    ∃ file, host.safetensors filePath = .ok file ∧ b.buffer = ⟨ptr, file.nbytes⟩ ∧
      b.metas = (sortHeader file.header).map HeaderEntry.param := by
  obtain ⟨file, hfile, hparse, hbuffer, -⟩ := parseAndPin_parsed h
  exact ⟨file, hfile, hbuffer, (parseHeader_ok hparse).2⟩

/-- The tensors of a file in the order of its bytes. -/
def StoredFile.entries (file : StoredFile) : List (String × List UInt8) :=
  (sortHeader file.header).map fun entry => (entry.name, file.bytesOf entry)

/-- A buffer that is the bytes of a file delivers its tensors. -/
theorem delivered_mapped {memory : Bytes} {b : MemoryBuffer} {file : StoredFile}
    (hmetas : b.metas = (sortHeader file.header).map HeaderEntry.param)
    (hread : memory.read b.buffer.ptr file.data.length = file.data) :
    b.delivered memory = file.entries := by
  refine List.ext_getElem? fun k => ?_
  rw [getElem?_delivered, hmetas, List.getElem?_map, StoredFile.entries, List.getElem?_map,
    Option.map_map]
  cases hentry : (sortHeader file.header)[k]? with
  | none => rfl
  | some entry =>
      have hmem : entry ∈ sortHeader file.header := List.mem_of_getElem? hentry
      have hspan := file.spans entry ((List.perm_insertionSort _ _).mem_iff.mp hmem)
      have hstop := (file.tiles.stop_le.2 entry hmem).2
      have hstart := file.tiles.offsetAt hentry
      have hlength := file.length_data
      have hnbytes : entry.param.nbytes = entry.stop - entry.start := by
        rw [hspan, Nat.add_sub_cancel_left]
        rfl
      rw [Nat.zero_add] at hstart
      have hpart := memory.read_part b.buffer.ptr
        (show entry.start + (entry.stop - entry.start) ≤ file.data.length by
          have := entry.start_le
          omega)
      rw [hread] at hpart
      simp only [Option.map_some, Function.comp_apply, hstart, hnbytes, hpart]
      rfl

/-- The last entry of a name is its tensor. -/
theorem StoredFile.lastWith_entries (file : StoredFile) (name : String) :
    lastWith Prod.fst name file.entries =
      (lastWith (fun x => x.name) name file.tensors).map LoadedTensor.entry := by
  have hsort : (sortHeader file.header).Perm file.header := List.perm_insertionSort _ _
  have hnodup : (file.entries.map Prod.fst).Nodup := by
    rw [StoredFile.entries, List.map_map]
    exact (hsort.map fun entry => entry.name).nodup_iff.mpr file.names_nodup
  rw [← lastWith_entry]
  refine lastWith_congr hnodup (fun x => ?_) name
  rw [StoredFile.entries, List.mem_map, List.mem_map]
  constructor
  · rintro ⟨entry, hmem, rfl⟩
    have hentry := hsort.mem_iff.mp hmem
    exact ⟨file.getTensor entry hentry, mem_tensors.mpr ⟨entry, hentry, rfl⟩, rfl⟩
  · rintro ⟨tensor, htensor, rfl⟩
    obtain ⟨entry, hentry, rfl⟩ := mem_tensors.mp htensor
    exact ⟨entry, hsort.mem_iff.mpr hentry, rfl⟩

/-- The tensors of the file at a path in the order of its bytes. -/
def Disk.entries (disk : Disk) (filePath : String) : List (String × List UInt8) :=
  match disk.file filePath with
  | .ok file => file.entries
  | .error _ => []

/-- The last tensor of a name in these files. -/
def Disk.lastTensor (disk : Disk) (files : List String) (name : String) : Option LoadedTensor :=
  lastWith (fun x => x.name) name (files.flatMap disk.tensors)

theorem lastWith_diskEntries (disk : Disk) (name : String) (filePath : String) :
    lastWith Prod.fst name (disk.entries filePath) =
      (lastWith (fun x => x.name) name (disk.tensors filePath)).map LoadedTensor.entry := by
  unfold Disk.entries Disk.tensors
  cases disk.file filePath with
  | error error => rfl
  | ok file => exact file.lastWith_entries name

theorem lastWith_flatMap_entries (disk : Disk) (files : List String) (name : String) :
    lastWith Prod.fst name (files.flatMap disk.entries) =
      (disk.lastTensor files name).map LoadedTensor.entry := by
  unfold Disk.lastTensor
  induction files with
  | nil => rfl
  | cons file rest ih =>
      rw [List.flatMap_cons, List.flatMap_cons, lastWith_append, lastWith_append, ih,
        lastWith_diskEntries]
      cases lastWith (fun x : LoadedTensor => x.name) name (rest.flatMap disk.tensors) with
      | none => simp
      | some tensor => rfl

namespace InplacePinsMemory

variable {disk : Disk} {device : Device} {files : List String} {first : Nat} {start : Bytes}
  {loaded : Loaded}

/-- Every buffer is one of the files. -/
theorem pinned (h : InplacePinsMemory disk device files first start loaded) {i : Nat}
    {b : MemoryBuffer} (hb : loaded.buffers[i]? = some b) :
    ∃ file stored, files[i]? = some file ∧ disk.file file = .ok stored ∧
      b.buffer.nbytes = stored.data.length ∧
      b.metas = (sortHeader stored.header).map HeaderEntry.param := by
  obtain ⟨-, hpinned, -⟩ := h
  obtain ⟨file, hfile, hparse⟩ := (mapM_zipIdx_ok hpinned).2 i b hb
  obtain ⟨header, hheader, hbuffer, hmetas⟩ := parseAndPin_ok hparse
  cases hstored : disk.file file with
  | error error =>
      simp only [Disk.host, hstored, Except.map] at hheader
      cases hheader
  | ok stored =>
      simp only [Disk.host, hstored, Except.map] at hheader
      obtain rfl := Except.ok.inj hheader
      exact ⟨file, stored, hfile, hstored, by rw [hbuffer, stored.length_data], hmetas⟩

theorem getElem?_mapped {buffers : List MemoryBuffer} {i : Nat} {write : Write UInt8}
    (h : (List.zipWith disk.mapped files buffers)[i]? = some write) :
    ∃ file b, files[i]? = some file ∧ buffers[i]? = some b ∧ disk.mapped file b = write := by
  rw [List.getElem?_zipWith] at h
  split at h
  · next file b hfile hb => exact ⟨file, b, hfile, hb, Option.some.inj h⟩
  · cases h

theorem region_mapped (h : InplacePinsMemory disk device files first start loaded) {i : Nat}
    {file : String} {b : MemoryBuffer} (hfile : files[i]? = some file)
    (hb : loaded.buffers[i]? = some b) : (disk.mapped file b).region = b.buffer.region := by
  obtain ⟨file', stored, hfile', hstored, hnbytes, -⟩ := h.pinned hb
  obtain rfl : file' = file := Option.some.inj (hfile'.symm.trans hfile)
  simp [Disk.mapped, hstored, Write.region, Tensor.region, hnbytes]

theorem mapped_apart (h : InplacePinsMemory disk device files first start loaded)
    (hapart : loaded.Separate) :
    (List.zipWith disk.mapped files loaded.buffers).Pairwise Write.Apart := by
  refine pairwise_of_getElem? fun i j write write' hij hi hj => ?_
  obtain ⟨file, b, hfile, hb, rfl⟩ := getElem?_mapped hi
  obtain ⟨file', b', hfile', hb', rfl⟩ := getElem?_mapped hj
  rw [Write.Apart, h.region_mapped hfile hb, h.region_mapped hfile' hb']
  exact pairwise_getElem? hapart hij hb hb'

/-- The buffers deliver the tensors of the files. -/
theorem delivered (h : InplacePinsMemory disk device files first start loaded)
    (hapart : loaded.Separate) : loaded.delivered = files.flatMap disk.entries := by
  have hlength : loaded.buffers.length = files.length := (mapM_zipIdx_ok h.2.1).1
  have hplaces : loaded.buffers.map (·.delivered loaded.memory) = files.map disk.entries := by
    refine List.ext_getElem (by simp [hlength]) fun i hi _ => ?_
    have hlt : i < loaded.buffers.length := by simpa using hi
    have hb := List.getElem?_eq_getElem hlt
    obtain ⟨file, stored, hfile, hstored, hnbytes, hmetas⟩ := h.pinned hb
    have hwrite : ⟨loaded.buffers[i].buffer.ptr, stored.data⟩ ∈
        List.zipWith disk.mapped files loaded.buffers := by
      refine List.mem_iff_getElem?.mpr ⟨i, ?_⟩
      rw [List.getElem?_zipWith, hfile, hb]
      simp [Disk.mapped, hstored]
    have hread := Memory.read_writeAll (m := start) (h.mapped_apart hapart) hwrite
    rw [← h.2.2] at hread
    obtain ⟨hlt', rfl⟩ := List.getElem?_eq_some_iff.mp hfile
    rw [List.getElem_map, List.getElem_map, delivered_mapped hmetas hread, Disk.entries, hstored]
  rw [Loaded.delivered, List.flatMap_def, List.flatMap_def, hplaces]

/-- Memory outside the buffers stays as it is. -/
theorem outside (h : InplacePinsMemory disk device files first start loaded) {a : Nat}
    (ha : ∀ b ∈ loaded.buffers, ¬ b.buffer.region.Contains a) : loaded.memory a = start a := by
  rw [h.2.2]
  refine Memory.writeAll_outside fun write hwrite => ?_
  obtain ⟨i, hi⟩ := List.mem_iff_getElem?.mp hwrite
  obtain ⟨file, b, hfile, hb, rfl⟩ := getElem?_mapped hi
  rw [h.region_mapped hfile hb]
  exact ha b (List.mem_of_getElem? hb)

end InplacePinsMemory

/-! ## What is delivered last -/

/-- Of each name, the tensor given with the name, else the last file with it; the
memory may change outside the buffers. -/
theorem NormalPinsMemory.delivered {disk : Disk} {device : Device} {files : List String}
    {namedTensors : TensorDict} {start : Bytes} {loaded : Loaded}
    (h : NormalPinsMemory disk device files namedTensors start loaded) (hapart : loaded.Separate)
    {memory : Bytes} (hsame : ∀ b ∈ loaded.buffers, ∀ j < b.buffer.nbytes,
      memory (b.buffer.ptr + j) = loaded.memory (b.buffer.ptr + j)) (name : String) :
    lastWith Prod.fst name (loaded.buffers.flatMap (·.delivered memory)) =
      ((namedTensors.find name).or (disk.lastTensor files name)).map LoadedTensor.entry := by
  obtain ⟨dict, hdict, -, hlossless⟩ := h.lossless
  have hheld := hlossless hapart
  have hkept : loaded.buffers.flatMap (·.delivered memory) =
      loaded.buffers.flatMap (·.delivered loaded.memory) := by
    rw [List.flatMap_def, List.flatMap_def]
    congr 1
    apply List.map_congr_left
    intro b hb
    exact delivered_congr (fun k param hparam => hheld.inside hb hparam) (hsame b hb)
  have hfind := TensorDict.find_update dict namedTensors name
  rw [loadCheckpoint_find hdict] at hfind
  rw [hkept, hheld.delivered (dict.update namedTensors).names_nodup]
  exact congrArg (Option.map LoadedTensor.entry) hfind

/-- Of each name, the last file pinned in place with it, else the tensor given with the
name, else the last file copied with it. -/
theorem RegistersCheckpoint.delivered {disk : Disk} {device : Device} {files : List String}
    {namedTensors : TensorDict} {inplacePin : Bool} {start : Bytes} {loaded : Loaded}
    (h : RegistersCheckpoint disk device files namedTensors inplacePin start loaded)
    (hapart : loaded.Separate) (name : String) :
    lastWith Prod.fst name loaded.delivered =
      ((disk.lastTensor (filesToInplacePin files inplacePin) name).or
        ((namedTensors.find name).or
          (disk.lastTensor (filesToNormalPin files inplacePin) name))).map
        LoadedTensor.entry := by
  unfold RegistersCheckpoint at h
  split at h
  · next hempty =>
      obtain ⟨rfl, hnamed⟩ := hempty
      rw [h, TensorDict.find, hnamed]
      cases inplacePin <;> rfl
  · obtain ⟨normal, inplace, hnormal, hinplace, rfl⟩ := h
    obtain ⟨hnormalApart, hinplaceApart, hacross⟩ := List.pairwise_append.mp hapart
    have hcopied : lastWith Prod.fst name
        (normal.buffers.flatMap (·.delivered inplace.memory)) =
          ((namedTensors.find name).or
            (disk.lastTensor (filesToNormalPin files inplacePin) name)).map
            LoadedTensor.entry := by
      split at hnormal
      · next hnone =>
          obtain ⟨hfiles, hnamed⟩ := hnone
          rw [hnormal, hfiles, TensorDict.find, hnamed]
          rfl
      · apply hnormal.delivered hnormalApart
        intro b hb j hj
        apply hinplace.outside
        intro b' hb' hin
        apply hacross b hb b' hb' _ ⟨⟨?_, ?_⟩, hin⟩
        · exact Nat.le_add_right _ _
        · exact Nat.add_lt_add_left hj _
    rw [Loaded.delivered, List.flatMap_append, lastWith_append, hcopied]
    have hmapped := hinplace.delivered hinplaceApart
    rw [Loaded.delivered] at hmapped
    rw [hmapped, lastWith_flatMap_entries]
    cases disk.lastTensor (filesToInplacePin files inplacePin) name with
    | none => rfl
    | some tensor => rfl

theorem RegistersCheckpoint.weight {disk : Disk} {device : Device} {files : List String}
    {namedTensors : TensorDict} {inplacePin : Bool} {start : Bytes} {loaded : Loaded}
    (h : RegistersCheckpoint disk device files namedTensors inplacePin start loaded)
    (hapart : loaded.Separate) (name : String) :
    loaded.weight name =
      ((disk.lastTensor (filesToInplacePin files inplacePin) name).or
        ((namedTensors.find name).or
          (disk.lastTensor (filesToNormalPin files inplacePin) name))).map (·.bytes) := by
  rw [Loaded.weight, h.delivered hapart, Option.map_map]
  rfl

end CheckpointEngine.Registry
