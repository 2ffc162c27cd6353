/-
  `Launch.Registration`: the tensors that a rank announces are those it has been given.

  `RegistersCheckpoint` says in which memories a registration can end.  Here every tensor
  in such a memory is compared with dtype, shape and bytes, and in the form in which an
  update takes it from its owner.
-/
import CheckpointEngine.Registry.Overriding
import CheckpointEngine.Registry.Pools
import CheckpointEngine.Update.Delivery
import CheckpointEngine.Launch.Splitting
import Mathlib.Data.List.Flatten

set_option autoImplicit false

namespace CheckpointEngine.Launch

open CheckpointEngine.Foundation CheckpointEngine.Plan CheckpointEngine.Registry
open CheckpointEngine.Update (Weight)

/-- A tensor as `run` gets it. -/
def weight (tensor : LoadedTensor) : Weight :=
  ⟨tensor.name, tensor.dtype, tensor.shape, tensor.bytes⟩

/-- What lies at the place of a meta of a buffer. -/
def weightAt (memory : Bytes) (b : MemoryBuffer) (k : Nat) (param : ParameterMeta) : Weight :=
  ⟨param.name, param.dtype, param.shape,
    memory.read (b.buffer.ptr + offsetAt b.metas k) param.nbytes⟩

/-- The tensors in a buffer. -/
def weightsIn (memory : Bytes) (b : MemoryBuffer) : List Weight :=
  b.metas.zipIdx.map fun x => weightAt memory b x.2 x.1

theorem getElem?_weightsIn {memory : Bytes} {b : MemoryBuffer} {k : Nat} :
    (weightsIn memory b)[k]? = (b.metas[k]?).map (weightAt memory b k) := by
  rw [weightsIn, List.getElem?_map, List.getElem?_zipIdx, Option.map_map, Nat.zero_add]
  rfl

theorem weightsIn_names (memory : Bytes) (b : MemoryBuffer) :
    (weightsIn memory b).map (·.name) = b.metas.map (·.name) := by
  refine List.ext_getElem? fun k => ?_
  rw [List.getElem?_map, getElem?_weightsIn, List.getElem?_map, Option.map_map]
  rfl

/-! ## As an update takes them -/

theorem getElem?_placeMetas (idx : Nat) (metas : List ParameterMeta) :
    ∀ offset k : Nat, (placeMetas idx offset metas)[k]? =
      (metas[k]?).map fun param => ⟨idx, offset + offsetAt metas k, param⟩ := by
  induction metas with
  | nil =>
      intro offset k
      rw [placeMetas, List.getElem?_nil, List.getElem?_nil, Option.map_none]
  | cons param rest ih =>
      intro offset k
      cases k with
      | zero => rfl
      | succ k =>
          have hload : offsetAt (param :: rest) (k + 1) =
              param.alignedSize + offsetAt rest k := by
            rw [offsetAt, List.take_succ_cons, load_cons]
            rfl
          rw [placeMetas, List.getElem?_cons_succ, List.getElem?_cons_succ, ih, hload,
            Nat.add_assoc]

/-- The tensors of an owner are those in its buffers, one buffer after the other. -/
theorem entries_announced (memory : Bytes) (buffers : List MemoryBuffer) :
    (entries (announced buffers)).map (Entry.weightIn memory (announced buffers)) =
      buffers.flatMap (weightsIn memory) := by
  have hplaced : ∀ pairs : List (MemoryBufferMetas × Nat), ∀ bs : List MemoryBuffer,
      pairs.map Prod.fst = announced bs →
      (∀ pair ∈ pairs, (announced buffers)[pair.2]? = some pair.1) →
        (placeBuffers pairs).map (Entry.weightIn memory (announced buffers)) =
          bs.flatMap (weightsIn memory) := by
    intro pairs
    induction pairs with
    | nil =>
        intro bs hbs _
        obtain rfl := List.map_eq_nil_iff.mp hbs.symm
        rw [placeBuffers, List.map_nil, List.flatMap_nil]
    | cons pair rest ih =>
        intro bs hbs hplace
        obtain ⟨b, bs, rfl, hb, hrest⟩ := List.map_eq_cons_iff.mp hbs.symm
        have hptr : bufferPtr (announced buffers) pair.2 = b.buffer.ptr := by
          rw [bufferPtr, hplace pair List.mem_cons_self, ← hb]
          rfl
        rw [placeBuffers, List.map_append, List.flatMap_cons,
          ih bs hrest.symm fun other hother => hplace other (List.mem_cons_of_mem _ hother)]
        congr 1
        refine List.ext_getElem? fun k => ?_
        rw [List.getElem?_map, getElem?_placeMetas, getElem?_weightsIn, ← hb, Option.map_map]
        refine congrArg (Option.map · _) (funext fun param => ?_)
        rw [Function.comp_apply, Entry.weightIn, weightAt, hptr, Nat.zero_add]
  refine hplaced _ buffers (List.zipIdx_map_fst 0 _) fun pair hpair => ?_
  exact List.mem_zipIdx_iff_getElem?.mp hpair

/-! ## Copied tensors -/

section Copied

variable {parameters : List LoadedTensor} {buffers : List MemoryBuffer} {memory : Bytes}

/-- Only the memory inside the buffers matters. -/
theorem lossless_congr (h : Lossless parameters buffers memory) {other : Bytes}
    (hsame : ∀ b ∈ buffers, ∀ j < b.buffer.nbytes,
      other (b.buffer.ptr + j) = memory (b.buffer.ptr + j)) :
    Lossless parameters buffers other := by
  refine { h with bytes := fun b hb k param hparam => ?_ }
  obtain ⟨tensor, htensor, hpacked, hread⟩ := h.bytes b hb k param hparam
  refine ⟨tensor, htensor, hpacked, ?_⟩
  rw [← hread]
  refine Memory.read_congr fun j hj => ?_
  have hinside := h.inside hb hparam
  rw [Nat.add_assoc]
  exact hsame b hb _ (by omega)

/-- A meta of a buffer is that of a tensor, which lies at its place. -/
theorem lossless_weightAt (h : Lossless parameters buffers memory) {b : MemoryBuffer}
    (hb : b ∈ buffers) {k : Nat} {param : ParameterMeta} (hparam : b.metas[k]? = some param) :
    ∃ tensor ∈ parameters, tensor.toParameter.packed = param ∧
      weightAt memory b k param = weight tensor := by
  obtain ⟨tensor, htensor, rfl, hread⟩ := h.bytes b hb k param hparam
  refine ⟨tensor, htensor, rfl, ?_⟩
  rw [weightAt, hread]
  rfl

/-- Buffers that hold all tensors hold each once. -/
theorem lossless_weights (h : Lossless parameters buffers memory)
    (hnames : (parameters.map fun x => x.name).Nodup) :
    (buffers.flatMap (weightsIn memory)).Perm (parameters.map weight) := by
  have hperm : ((buffers.flatMap (weightsIn memory)).map (·.name)).Perm
      (parameters.map fun x => x.name) := by
    have hall := h.complete.map (·.name)
    rw [List.map_flatMap, List.map_map] at hall
    rw [List.map_flatMap]
    simp only [weightsIn_names]
    exact hall
  have hdistinct := List.Nodup.of_map _ (hperm.nodup_iff.mpr hnames)
  have hnames' : ((parameters.map weight).map (·.name)).Nodup := by
    rw [List.map_map]
    exact hnames
  refine (List.perm_ext_iff_of_nodup hdistinct (List.Nodup.of_map _ hnames')).mpr fun x => ?_
  constructor
  · intro hx
    obtain ⟨b, hb, hx⟩ := List.mem_flatMap.mp hx
    obtain ⟨k, hk⟩ := List.mem_iff_getElem?.mp hx
    rw [getElem?_weightsIn] at hk
    obtain ⟨param, hparam, rfl⟩ := Option.map_eq_some_iff.mp hk
    obtain ⟨tensor, htensor, -, heq⟩ := lossless_weightAt h hb hparam
    rw [heq]
    exact List.mem_map_of_mem htensor
  · intro hx
    obtain ⟨tensor, htensor, rfl⟩ := List.mem_map.mp hx
    have hmeta := h.complete.mem_iff.mpr
      (List.mem_map_of_mem (f := fun x => x.toParameter.packed) htensor)
    obtain ⟨b, hb, hmeta⟩ := List.mem_flatMap.mp hmeta
    obtain ⟨k, hk⟩ := List.mem_iff_getElem?.mp hmeta
    obtain ⟨other, hother, hpacked, heq⟩ := lossless_weightAt h hb hk
    have hname : other.name = tensor.name := congrArg ParameterMeta.name hpacked
    obtain rfl := List.inj_on_of_nodup_map hnames hother htensor hname
    refine List.mem_flatMap.mpr ⟨b, hb, List.mem_iff_getElem?.mpr ⟨k, ?_⟩⟩
    rw [getElem?_weightsIn, hk, Option.map_some, heq]

/-- Files whose names are all different are loaded as they are. -/
theorem loadCheckpoint_tensors {disk : Disk} {files : List String} {dict : TensorDict}
    (h : loadCheckpoint disk files = .ok dict)
    (hnames : ((files.flatMap disk.tensors).map fun x => x.name).Nodup) :
    dict.tensors = files.flatMap disk.tensors := by
  obtain ⟨loaded, hloaded, h⟩ := bind_eq_ok.mp h
  obtain ⟨-, -, h⟩ := bind_eq_ok.mp h
  obtain rfl := Except.ok.inj h
  have hfiles : loaded = files.map disk.tensors :=
    mapM_eq_map hloaded fun _ _ hfile => loadCheckpointFile_ok hfile
  have hweights : ∀ tensors : List LoadedTensor, ∀ gathered : Gathered,
      (tensors.foldl Gathered.add gathered).weights =
        tensors.foldl TensorDict.set gathered.weights := by
    intro tensors
    induction tensors with
    | nil => exact fun _ => rfl
    | cons tensor rest ih => exact fun gathered => ih (gathered.add tensor)
  rw [hweights, hfiles, ← List.flatMap_def]
  exact foldl_set (files.flatMap disk.tensors) .empty hnames

/-- Tensors given under other names come behind them. -/
theorem update_tensors {dict named : TensorDict}
    (hnames : ((dict.tensors ++ named.tensors).map fun x => x.name).Nodup) :
    (dict.update named).tensors = dict.tensors ++ named.tensors := by
  rw [List.map_append] at hnames
  have hdisjoint := List.disjoint_of_nodup_append hnames
  have hkept : (dict.tensors.filter fun x => x.name ∉ named.tensors.map fun x => x.name) =
      dict.tensors := by
    refine List.filter_eq_self.mpr fun tensor htensor => decide_eq_true ?_
    exact fun hmem => hdisjoint (List.mem_map_of_mem htensor) hmem
  exact congrArg (· ++ named.tensors) hkept

end Copied

/-! ## Files pinned in place -/

section Inplace

variable {disk : Disk} {device : Registry.Device} {files : List String} {first : Nat}
  {start : Bytes} {loaded : Loaded}

/-- Every buffer holds the bytes of its file. -/
theorem inplace_read (h : InplacePinsMemory disk device files first start loaded)
    (hapart : loaded.Separate) {i : Nat} {b : MemoryBuffer} (hb : loaded.buffers[i]? = some b) :
    ∃ file stored, files[i]? = some file ∧ disk.file file = .ok stored ∧
      b.metas = (sortHeader stored.header).map HeaderEntry.param ∧
      loaded.memory.read b.buffer.ptr stored.data.length = stored.data := by
  obtain ⟨file, stored, hfile, hstored, -, hmetas⟩ := h.pinned hb
  refine ⟨file, stored, hfile, hstored, hmetas, ?_⟩
  have hwrite : ⟨b.buffer.ptr, stored.data⟩ ∈ List.zipWith disk.mapped files loaded.buffers := by
    refine List.mem_iff_getElem?.mpr ⟨i, ?_⟩
    rw [List.getElem?_zipWith, hfile, hb]
    simp [Disk.mapped, hstored]
  have hread := Memory.read_writeAll (m := start) (h.mapped_apart hapart) hwrite
  rw [h.2.2]
  exact hread

/-- A buffer that is the bytes of a file holds the tensors of the file. -/
theorem weightsIn_mapped {memory : Bytes} {b : MemoryBuffer} {file : StoredFile}
    (hmetas : b.metas = (sortHeader file.header).map HeaderEntry.param)
    (hread : memory.read b.buffer.ptr file.data.length = file.data) :
    (weightsIn memory b).Perm (file.tensors.map weight) := by
  have hdelivered := delivered_mapped hmetas hread
  have hweights : weightsIn memory b = (sortHeader file.header).map fun entry =>
      ⟨entry.name, entry.dtype, entry.shape, file.bytesOf entry⟩ := by
    refine List.ext_getElem? fun k => ?_
    have hk := congrArg (·[k]?) hdelivered
    simp only [getElem?_delivered, StoredFile.entries, hmetas, List.getElem?_map] at hk
    rw [getElem?_weightsIn, hmetas, List.getElem?_map, List.getElem?_map]
    cases hentry : (sortHeader file.header)[k]? with
    | none => rfl
    | some entry =>
        rw [hentry] at hk
        have hbytes := (Prod.mk.inj (Option.some.inj hk)).2
        rw [Option.map_some, Option.map_some, Option.map_some, weightAt, hmetas, hbytes]
        rfl
  have htensors : file.tensors.map weight = file.header.map fun entry =>
      ⟨entry.name, entry.dtype, entry.shape, file.bytesOf entry⟩ := by
    rw [StoredFile.tensors, List.map_map]
    exact List.attach_map_val (f := fun entry : HeaderEntry =>
      (⟨entry.name, entry.dtype, entry.shape, file.bytesOf entry⟩ : Weight))
  rw [hweights, htensors]
  exact (List.perm_insertionSort _ _).map _

/-- The buffers hold the tensors of the files. -/
theorem inplace_weights (h : InplacePinsMemory disk device files first start loaded)
    (hapart : loaded.Separate) :
    (loaded.buffers.flatMap (weightsIn loaded.memory)).Perm
      ((files.flatMap disk.tensors).map weight) := by
  have hlength : loaded.buffers.length = files.length := (mapM_zipIdx_ok h.2.1).1
  have hforall : List.Forall₂ (fun b file =>
      (weightsIn loaded.memory b).Perm ((disk.tensors file).map weight)) loaded.buffers files := by
    refine List.forall₂_iff_get.mpr ⟨hlength, fun i hi hi' => ?_⟩
    have hb := List.getElem?_eq_getElem hi
    obtain ⟨file, stored, hfile, hstored, hmetas, hread⟩ := inplace_read h hapart hb
    obtain ⟨hlt, rfl⟩ := List.getElem?_eq_some_iff.mp hfile
    have hdisk : disk.tensors files[i] = stored.tensors := by
      rw [Disk.tensors, hstored]
    rw [List.get_eq_getElem, List.get_eq_getElem, hdisk]
    exact weightsIn_mapped hmetas hread
  rw [List.map_flatMap]
  exact flatMap_perm_of_forall₂ hforall

/-- A tensor of a file takes as much room as it has bytes. -/
theorem inplace_room (h : InplacePinsMemory disk device files first start loaded) :
    ∀ b ∈ loaded.buffers, ∀ param ∈ b.metas, param.nbytes ≤ param.alignedSize := by
  intro b hb param hparam
  obtain ⟨i, hi⟩ := List.getElem?_of_mem hb
  obtain ⟨file, stored, -, -, -, hmetas⟩ := h.pinned hi
  rw [hmetas] at hparam
  obtain ⟨entry, hentry, rfl⟩ := List.mem_map.mp hparam
  have hspan := stored.spans entry ((List.perm_insertionSort _ _).mem_iff.mp hentry)
  have hsize := entry.start_add_size
  simp only [HeaderEntry.param, ParameterMeta.nbytes]
  omega

end Inplace

/-! ## Registered checkpoints -/

/-- The tensors that a rank is given. -/
def givenTensors (disk : Disk) (files : List String) (named : TensorDict) : List LoadedTensor :=
  files.flatMap disk.tensors ++ named.tensors

section Registered

variable {disk : Disk} {device : Registry.Device} {files : List String} {named : TensorDict}
  {inplacePin : Bool} {start : Bytes} {loaded : Loaded}

/-- What the copied buffers hold, also when the memory changes outside of them. -/
theorem normal_lossless (h : NormalPinsMemory disk device files named start loaded)
    (hapart : loaded.Separate)
    (hnames : ((givenTensors disk files named).map fun x => x.name).Nodup) {memory : Bytes}
    (hsame : ∀ b ∈ loaded.buffers, ∀ j < b.buffer.nbytes,
      memory (b.buffer.ptr + j) = loaded.memory (b.buffer.ptr + j)) :
    Lossless (givenTensors disk files named) loaded.buffers memory := by
  obtain ⟨dict, hdict, -, hlossless⟩ := h.lossless
  have hfiles : ((files.flatMap disk.tensors).map fun x => x.name).Nodup := by
    rw [givenTensors, List.map_append] at hnames
    exact (List.nodup_append.mp hnames).1
  have hloaded := loadCheckpoint_tensors hdict hfiles
  have hgiven : (dict.update named).tensors = givenTensors disk files named := by
    rw [givenTensors, ← hloaded]
    exact update_tensors (by rw [hloaded]; exact hnames)
  rw [← hgiven]
  exact lossless_congr (hlossless hapart) hsame

theorem lossless_nil (memory : Bytes) : Lossless [] [] memory where
  complete := List.Perm.refl _
  sorted := List.Pairwise.nil
  sizes := fun _ hb => absurd hb List.not_mem_nil
  aligned := fun _ hb => absurd hb List.not_mem_nil
  apart := List.Pairwise.nil
  buffersApart := List.Pairwise.nil
  bytes := fun _ hb => absurd hb List.not_mem_nil

theorem given_sublist : (givenTensors disk (filesToNormalPin files inplacePin) named).Sublist
    (givenTensors disk files named) :=
  List.Sublist.append_right (List.filter_sublist.flatMap disk.tensors) _

/-- The copied and the mapped part of what a registration returns, and what they hold in the
memory in which it ends. -/
theorem registers_parts
    (h : RegistersCheckpoint disk device files named inplacePin start loaded)
    (hapart : loaded.Separate)
    (hnames : ((givenTensors disk files named).map fun x => x.name).Nodup) :
    ∃ normal inplace, loaded.buffers = normal ++ inplace ∧
      Lossless (givenTensors disk (filesToNormalPin files inplacePin) named) normal
        loaded.memory ∧
      (inplace.flatMap (weightsIn loaded.memory)).Perm
        (((filesToInplacePin files inplacePin).flatMap disk.tensors).map weight) ∧
      ∀ b ∈ inplace, ∀ param ∈ b.metas, param.nbytes ≤ param.alignedSize := by
  unfold RegistersCheckpoint at h
  split at h
  · next hempty =>
      obtain ⟨rfl, hnamed⟩ := hempty
      have hgiven : givenTensors disk (filesToNormalPin [] inplacePin) named = [] := by
        rw [givenTensors, hnamed]
        rfl
      have hfiles : filesToInplacePin [] inplacePin = [] := by
        cases inplacePin with
        | true => rfl
        | false => rfl
      rw [h, hgiven, hfiles]
      exact ⟨[], [], rfl, lossless_nil start, List.Perm.refl _,
        fun _ hb => absurd hb List.not_mem_nil⟩
  · obtain ⟨normal, inplace, hnormal, hinplace, rfl⟩ := h
    obtain ⟨hnormalApart, hinplaceApart, hacross⟩ := List.pairwise_append.mp hapart
    have hsame : ∀ b ∈ normal.buffers, ∀ j < b.buffer.nbytes,
        inplace.memory (b.buffer.ptr + j) = normal.memory (b.buffer.ptr + j) := by
      intro b hb j hj
      apply hinplace.outside
      intro b' hb' hin
      apply hacross b hb b' hb' _ ⟨⟨?_, ?_⟩, hin⟩
      · exact Nat.le_add_right _ _
      · exact Nat.add_lt_add_left hj _
    refine ⟨normal.buffers, inplace.buffers, rfl, ?_, inplace_weights hinplace hinplaceApart,
      inplace_room hinplace⟩
    split at hnormal
    · next hnone =>
        obtain ⟨hfiles, hnamed⟩ := hnone
        rw [hnormal, hfiles, givenTensors, hnamed]
        exact lossless_nil _
    · exact normal_lossless hnormal hnormalApart (hnames.sublist (given_sublist.map _)) hsame

theorem filesToPin_perm (files : List String) (inplacePin : Bool) :
    (filesToNormalPin files inplacePin ++ filesToInplacePin files inplacePin).Perm files := by
  cases inplacePin with
  | true =>
      rw [filesToNormalPin_inplace]
      exact List.perm_append_comm.trans (List.filter_append_perm inplacePath files)
  | false =>
      rw [filesToNormalPin_copied, filesToInplacePin, if_neg Bool.false_ne_true, List.append_nil]

/-- The tensors of a rank. -/
def heldWeights (loaded : Loaded) : List Weight :=
  (entries (announced loaded.buffers)).map
    (Entry.weightIn loaded.memory (announced loaded.buffers))

/-- What a rank announces are the tensors it has been given, each once and with its bytes. -/
theorem registers_weights
    (h : RegistersCheckpoint disk device files named inplacePin start loaded)
    (hapart : loaded.Separate)
    (hnames : ((givenTensors disk files named).map fun x => x.name).Nodup) :
    (heldWeights loaded).Perm ((givenTensors disk files named).map weight) := by
  obtain ⟨normal, inplace, hbuffers, hlossless, hinplace, -⟩ := registers_parts h hapart hnames
  have hnormal := lossless_weights hlossless (hnames.sublist (given_sublist.map _))
  rw [heldWeights, entries_announced, hbuffers, List.flatMap_append]
  refine (hnormal.append hinplace).trans ?_
  rw [← List.map_append]
  refine List.Perm.map weight ?_
  rw [givenTensors, givenTensors, List.append_assoc]
  refine (List.perm_append_comm.append_left _).trans ?_
  rw [← List.append_assoc, ← List.flatMap_append]
  exact ((filesToPin_perm files inplacePin).flatMap_right _).append_right _

/-- Every announced tensor has room for its bytes. -/
theorem registers_room
    (h : RegistersCheckpoint disk device files named inplacePin start loaded)
    (hapart : loaded.Separate)
    (hnames : ((givenTensors disk files named).map fun x => x.name).Nodup) :
    ∀ b ∈ loaded.buffers, ∀ param ∈ b.metas, param.nbytes ≤ param.alignedSize := by
  obtain ⟨normal, inplace, hbuffers, hlossless, -, hroom⟩ := registers_parts h hapart hnames
  intro b hb param hparam
  rw [hbuffers] at hb
  cases List.mem_append.mp hb with
  | inl hb =>
      obtain ⟨k, hk⟩ := List.mem_iff_getElem?.mp hparam
      exact (hlossless.aligned b hb k param hk).2.1
  | inr hb => exact hroom b hb param hparam

end Registered

end CheckpointEngine.Launch
