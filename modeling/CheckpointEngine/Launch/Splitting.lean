/-
  `Launch.Splitting`: which part of a checkpoint a rank registers,
  `split_checkpoint_files` and `split_tensors` in `examples/update.py`.

  Every rank lists the directory for itself and takes its part of what it has found.
  That the parts fit together rests on the sorting, since `os.listdir` has no order.
-/
import CheckpointEngine.Foundation.Chunks
import CheckpointEngine.Foundation.Fallible
import CheckpointEngine.Foundation.Grouping
import CheckpointEngine.Registry.Loading
import Mathlib.Data.List.Pairwise
import Mathlib.Data.List.Sort
import Mathlib.Data.String.Basic

set_option autoImplicit false

namespace CheckpointEngine.Launch

open CheckpointEngine.Foundation CheckpointEngine.Registry

/-! ## Files -/

/-- `os.path.join(path, name)`. -/
def osPathJoin (path name : String) : String :=
  if name.toList.head? = some '/' then name
  else if path = "" ∨ path.toList.getLast? = some '/' then path ++ name
  else path ++ "/" ++ name

/-- The entries of a directory. -/
structure Directory where
  path : String
  names : List String
  names_nodup : names.Nodup
  names_plain : ∀ name ∈ names, '/' ∉ name.toList

/-- `sorted(os.path.join(path, f) for f in names if f.endswith(".safetensors"))`. -/
def checkpointFiles (path : String) (names : List String) : List String :=
  ((names.filter fun name => ".safetensors".toList.isSuffixOf name.toList).map
    (osPathJoin path)).insertionSort (· ≤ ·)

/-- `split_checkpoint_files`, where `os.listdir` gives `listdir`. -/
def splitCheckpointFiles (path : String) (listdir : List String) (rank worldSize : Nat) :
    List String :=
  let files := checkpointFiles path listdir
  let filesPerRank := partLength files.length worldSize
  slice (rank * filesPerRank) ((rank + 1) * filesPerRank) files

theorem osPathJoin_injective (path : String) {name other : String} (hname : '/' ∉ name.toList)
    (hother : '/' ∉ other.toList) (h : osPathJoin path name = osPathJoin path other) :
    name = other := by
  have hplain : ∀ {s : String}, '/' ∉ s.toList → s.toList.head? ≠ some '/' :=
    fun hs hhead => hs (List.mem_of_mem_head? hhead)
  unfold osPathJoin at h
  rw [if_neg (hplain hname), if_neg (hplain hother)] at h
  split at h
  · exact String.append_right_inj path |>.mp h
  · exact String.append_right_inj (path ++ "/") |>.mp h

/-- In whatever order the directory is listed, the files are the same. -/
theorem checkpointFiles_perm {path : String} {names listdir : List String}
    (h : listdir.Perm names) : checkpointFiles path listdir = checkpointFiles path names := by
  have hperm := (h.filter fun name => ".safetensors".toList.isSuffixOf name.toList).map
    (osPathJoin path)
  refine List.Perm.eq_of_pairwise (fun x y _ _ hle hge => le_antisymm hle hge)
    (List.pairwise_insertionSort _ _) (List.pairwise_insertionSort _ _) ?_
  exact (List.perm_insertionSort _ _).trans (hperm.trans (List.perm_insertionSort _ _).symm)

theorem mem_checkpointFiles {path : String} {names : List String} {file : String} :
    file ∈ checkpointFiles path names ↔
      ∃ name ∈ names, ".safetensors".toList <:+ name.toList ∧ osPathJoin path name = file := by
  simp only [checkpointFiles, List.mem_insertionSort, List.mem_map, List.mem_filter,
    List.isSuffixOf_iff_suffix, and_assoc]

theorem Directory.checkpointFiles_nodup (d : Directory) :
    (checkpointFiles d.path d.names).Nodup := by
  rw [checkpointFiles, (List.perm_insertionSort _ _).nodup_iff]
  refine List.Nodup.map_on ?_ (d.names_nodup.filter _)
  intro name hname other hother heq
  exact osPathJoin_injective d.path (d.names_plain name (List.mem_of_mem_filter hname))
    (d.names_plain other (List.mem_of_mem_filter hother)) heq

/-- The parts of the ranks, one behind the other, are the files of the directory. -/
theorem splitCheckpointFiles_flatMap {d : Directory} {worldSize : Nat} (hranks : 0 < worldSize)
    {listdir : Rank → List String} (hlistdir : ∀ rank, (listdir rank).Perm d.names) :
    ((List.range worldSize).flatMap fun rank =>
      splitCheckpointFiles d.path (listdir rank) rank worldSize) =
        checkpointFiles d.path d.names := by
  have hsame : ∀ rank, splitCheckpointFiles d.path (listdir rank) rank worldSize =
      splitCheckpointFiles d.path d.names rank worldSize := by
    intro rank
    simp only [splitCheckpointFiles, checkpointFiles_perm (hlistdir rank)]
  simp only [hsame]
  exact flatMap_parts hranks (checkpointFiles d.path d.names)

/-- The parts of two ranks have no file in common. -/
theorem splitCheckpointFiles_disjoint {d : Directory} {worldSize : Nat}
    {listdir : Rank → List String} (hlistdir : ∀ rank, (listdir rank).Perm d.names)
    {rank other : Rank} (hrank : rank < worldSize) (hother : other < worldSize)
    (hne : rank ≠ other) :
    (splitCheckpointFiles d.path (listdir rank) rank worldSize).Disjoint
      (splitCheckpointFiles d.path (listdir other) other worldSize) := by
  have hall := d.checkpointFiles_nodup
  rw [← splitCheckpointFiles_flatMap (Nat.zero_lt_of_lt hrank) hlistdir,
    List.nodup_flatMap] at hall
  have : Std.Symm (Function.onFun List.Disjoint fun rank =>
      splitCheckpointFiles d.path (listdir rank) rank worldSize) := ⟨fun _ _ h _ hx hy => h hy hx⟩
  exact hall.2.forall (List.mem_range.mpr hrank) (List.mem_range.mpr hother) hne

/-! ## Tensors -/

/-- What `split_tensors` raises behind its reading of the index. -/
inductive SplitError where
  /-- `safe_open` raises -/
  | opening (error : PyError)
  /-- `get_tensor` finds no such tensor -/
  | noTensor (name : String)

/-- The tensor of a name in a file. -/
def tensorIn (file : StoredFile) (name : String) : Option LoadedTensor :=
  tensorNamed file.tensors name

/-- `[f.get_tensor(name) for name in names]`, of a file that is opened for it. -/
def getTensors (disk : Disk) (file : String) (names : List String) :
    Except SplitError (List LoadedTensor) := do
  let stored ← (disk.file file).mapError .opening
  names.mapM fun name => ((tensorIn stored name).map .ok).getD (.error (.noTensor name))

/-- `split_tensors`, with the `weight_map` of the index: the file of each name. -/
def splitTensors (disk : Disk) (path : String) (weightMap : List (String × String))
    (rank worldSize : Nat) : Except SplitError TensorDict := do
  let weightsPerRank := partLength weightMap.length worldSize
  let weights := slice (rank * weightsPerRank) ((rank + 1) * weightsPerRank) weightMap
  let fnTensors := groupBy Prod.snd Prod.fst weights
  let loaded ← fnTensors.mapM fun group => getTensors disk (osPathJoin path group.1) group.2
  return loaded.flatten.foldl TensorDict.set .empty

/-- The tensor that the index places in a file. -/
def weightOf (disk : Disk) (path : String) (weight : String × String) : Option LoadedTensor :=
  match disk.file (osPathJoin path weight.2) with
  | .ok stored => tensorIn stored weight.1
  | .error _ => none

theorem weightOf_name {disk : Disk} {path : String} {weight : String × String}
    {tensor : LoadedTensor} (h : weightOf disk path weight = some tensor) :
    tensor.name = weight.1 := by
  unfold weightOf at h
  split at h
  · rw [tensorIn, tensorNamed] at h
    have hname := List.find?_some h
    exact of_decide_eq_true hname
  · cases h

/-- The tensors of an index have the names in the index. -/
theorem names_perm {disk : Disk} {path : String} {tensors : List LoadedTensor}
    {weights : List (String × String)}
    (h : (tensors.map some).Perm (weights.map (weightOf disk path))) :
    (tensors.map fun x => x.name).Perm (weights.map Prod.fst) := by
  have hname : ∀ weight ∈ weights,
      (Option.map (fun x => x.name) ∘ weightOf disk path) weight = (some ∘ Prod.fst) weight := by
    intro weight hweight
    have hmem := h.mem_iff.mpr (List.mem_map_of_mem hweight)
    obtain ⟨tensor, -, heq⟩ := List.mem_map.mp hmem
    rw [Function.comp_apply, ← heq, Option.map_some, weightOf_name heq.symm,
      Function.comp_apply]
  have hmapped := h.map (Option.map fun x => x.name)
  rw [List.map_map, List.map_map, List.map_congr_left hname] at hmapped
  refine (List.map_perm_map_iff (Option.some_injective String)).mp ?_
  rw [List.map_map, List.map_map]
  exact hmapped

theorem getTensors_ok {disk : Disk} {path file : String} {names : List String}
    {tensors : List LoadedTensor}
    (h : getTensors disk (osPathJoin path file) names = .ok tensors) :
    tensors.map some = names.map fun name => weightOf disk path (name, file) := by
  obtain ⟨stored, hstored, h⟩ := bind_eq_ok.mp h
  have hfile : disk.file (osPathJoin path file) = .ok stored := by
    cases hopen : disk.file (osPathJoin path file) with
    | ok other =>
        rw [hopen] at hstored
        exact congrArg Except.ok (Except.ok.inj hstored)
    | error error =>
        rw [hopen] at hstored
        cases hstored
  refine mapM_map_eq h fun name _ tensor htensor => ?_
  simp only [weightOf, hfile]
  cases hname : tensorIn stored name with
  | none =>
      rw [hname] at htensor
      cases htensor
  | some other =>
      rw [hname] at htensor
      exact congrArg some (Except.ok.inj htensor).symm

/-- What is set under names that are all different stays in order. -/
theorem foldl_set (tensors : List LoadedTensor) :
    ∀ dict : TensorDict, ((dict.tensors ++ tensors).map fun x => x.name).Nodup →
      (tensors.foldl TensorDict.set dict).tensors = dict.tensors ++ tensors := by
  induction tensors with
  | nil =>
      intro dict _
      rw [List.append_nil, List.foldl_nil]
  | cons tensor rest ih =>
      intro dict hnames
      have hnew : tensor.name ∉ dict.tensors.map fun x => x.name := by
        rw [List.map_append, List.map_cons] at hnames
        intro hmem
        exact (List.disjoint_of_nodup_append hnames) hmem List.mem_cons_self
      have hset : (dict.set tensor).tensors = dict.tensors ++ [tensor] := setItem_of_notMem hnew
      rw [List.foldl_cons, ih, hset, List.append_assoc, List.singleton_append]
      rwa [hset, List.append_assoc, List.singleton_append]

/-- The rank's tensors are those that its part of the index names. -/
theorem splitTensors_ok {disk : Disk} {path : String} {weightMap : List (String × String)}
    (hkeys : (weightMap.map Prod.fst).Nodup) {rank worldSize : Nat} {dict : TensorDict}
    (h : splitTensors disk path weightMap rank worldSize = .ok dict) :
    (dict.tensors.map some).Perm
      ((slice (rank * partLength weightMap.length worldSize)
        ((rank + 1) * partLength weightMap.length worldSize) weightMap).map
        (weightOf disk path)) := by
  obtain ⟨loaded, hloaded, h⟩ := bind_eq_ok.mp h
  obtain rfl := Except.ok.inj h
  generalize hweights : slice (rank * partLength weightMap.length worldSize)
    ((rank + 1) * partLength weightMap.length worldSize) weightMap = weights at hloaded ⊢
  have hnodup : (weights.map Prod.fst).Nodup := by
    rw [← hweights, slice]
    exact hkeys.sublist (((List.take_sublist _ _).trans (List.drop_sublist _ _)).map _)
  have hgroups : groupBy Prod.snd Prod.fst weights =
      (groupBy Prod.snd id weights).map fun group => (group.1, group.2.map Prod.fst) :=
    groupBy_map Prod.snd id Prod.fst weights
  rw [hgroups, List.mapM_map] at hloaded
  have hread : loaded.map (List.map some) =
      (groupBy Prod.snd id weights).map fun group => group.2.map (weightOf disk path) := by
    refine mapM_map_eq hloaded fun group hgroup tensors htensors => ?_
    have hin : ∀ weight ∈ group.2, weight.2 = group.1 := by
      intro weight hweight
      rw [mem_groupBy hgroup, List.map_id] at hweight
      exact of_decide_eq_true (List.mem_filter.mp hweight).2
    rw [getTensors_ok htensors, List.map_map]
    refine List.map_congr_left fun weight hweight => ?_
    rw [Function.comp_apply, ← hin weight hweight]
  have hflat : (loaded.flatten.map some).Perm (weights.map (weightOf disk path)) := by
    rw [List.map_flatten, hread, ← List.flatMap_def, ← List.map_flatMap]
    have hperm := (groupBy_perm Prod.snd id weights).map (weightOf disk path)
    rwa [List.map_id] at hperm
  have hnames : (loaded.flatten.map fun x => x.name).Nodup := by
    exact (names_perm hflat).nodup_iff.mpr hnodup
  rw [foldl_set loaded.flatten .empty hnames]
  exact hflat

/-- The parts of the ranks together are the tensors of the index. -/
theorem splitTensors_flatMap {disk : Disk} {path : String} {weightMap : List (String × String)}
    (hkeys : (weightMap.map Prod.fst).Nodup) {worldSize : Nat} (hranks : 0 < worldSize)
    {dicts : Rank → TensorDict}
    (hdicts : ∀ rank < worldSize,
      splitTensors disk path weightMap rank worldSize = .ok (dicts rank)) :
    (((List.range worldSize).flatMap fun rank => (dicts rank).tensors).map some).Perm
      (weightMap.map (weightOf disk path)) := by
  have hparts := congrArg (List.map (weightOf disk path)) (flatMap_parts hranks weightMap)
  rw [List.map_flatMap] at hparts ⊢
  refine .trans ?_ (.of_eq hparts)
  refine List.Perm.flatMap_left _ fun rank hrank => ?_
  exact splitTensors_ok hkeys (hdicts rank (List.mem_range.mp hrank))

/-! ## The parts together -/

/-- However each rank lists the directory, every file is in the part of one rank, and once;
and where all ranks find the tensors of their part of the index, every tensor of the index is
with one rank, and once. -/
theorem split_partitions_checkpoint (d : Directory) (disk : Disk)
    (weightMap : List (String × String)) (worldSize : Nat) (hranks : 0 < worldSize)
    (hkeys : (weightMap.map Prod.fst).Nodup) :
    (∀ listdir : Rank → List String, (∀ rank, (listdir rank).Perm d.names) →
      (((List.range worldSize).flatMap fun rank =>
          splitCheckpointFiles d.path (listdir rank) rank worldSize).Nodup ∧
        ∀ file, (∃ rank < worldSize,
            file ∈ splitCheckpointFiles d.path (listdir rank) rank worldSize) ↔
          ∃ name ∈ d.names, ".safetensors".toList <:+ name.toList ∧
            osPathJoin d.path name = file)) ∧
      ∀ dicts : Rank → TensorDict,
        (∀ rank < worldSize,
          splitTensors disk d.path weightMap rank worldSize = .ok (dicts rank)) →
        (((List.range worldSize).flatMap fun rank => (dicts rank).tensors).map some).Perm
          (weightMap.map (weightOf disk d.path)) := by
  constructor
  · intro listdir hlistdir
    have hall := @splitCheckpointFiles_flatMap d worldSize hranks listdir hlistdir
    refine ⟨hall ▸ d.checkpointFiles_nodup, fun file => ?_⟩
    rw [← mem_checkpointFiles, ← hall, List.mem_flatMap]
    simp only [List.mem_range]
  · exact fun dicts hdicts => splitTensors_flatMap hkeys hranks hdicts

/-- A file of one tensor of one byte. -/
def oneTensorFile (name : String) (byte : UInt8) : StoredFile where
  header := [⟨name, .uint8, [1], 0, numel [1], numel [1], Nat.zero_add _⟩]
  nbytes := 1
  data := [byte]
  length_data := List.length_singleton
  names_nodup := List.nodup_singleton name
  spans := by simp [DType.itemsize, numel]
  tiles := ⟨rfl, rfl⟩

/-- A checkpoint of two tensors in two files. -/
def twoFiles : Disk where
  file path :=
    if path = "/ckpt/a.safetensors" then .ok (oneTensorFile "u" 1)
    else if path = "/ckpt/b.safetensors" then .ok (oneTensorFile "v" 2)
    else .error (.osError path)
  numpyRaises path := .osError path

def twoFilesDirectory : Directory where
  path := "/ckpt"
  names := ["b.safetensors", "config.json", "a.safetensors"]
  names_nodup := by decide
  names_plain := by decide

/-- What the index says of them. -/
def twoWeights : List (String × String) := [("u", "a.safetensors"), ("v", "b.safetensors")]

/-- Rank 0 lists the directory in another order than the others. -/
def unequalListings (rank : Rank) : List String :=
  if rank = 0 then twoFilesDirectory.names.reverse else twoFilesDirectory.names

theorem unequalListings_perm (rank : Rank) :
    (unequalListings rank).Perm twoFilesDirectory.names := by
  unfold unequalListings
  split
  · exact List.reverse_perm _
  · exact List.Perm.refl _

/-- The tensors of a rank of two. -/
def twoRanksTensors (rank : Rank) : TensorDict :=
  if rank = 0 then .set .empty ⟨⟨"u", .uint8, [1]⟩, [1], by decide⟩
  else .set .empty ⟨⟨"v", .uint8, [1]⟩, [2], by decide⟩

theorem splitTensors_twoFiles {rank : Rank} (h : rank < 2) :
    splitTensors twoFiles "/ckpt" twoWeights rank 2 = .ok (twoRanksTensors rank) := by
  cases rank with
  | zero => rfl
  | succ rank =>
      obtain rfl := Nat.lt_one_iff.mp (Nat.lt_of_succ_lt_succ h)
      rfl

theorem split_partitions_checkpoint_twoFiles :
    (∃ rank < 2, "/ckpt/b.safetensors" ∈
        splitCheckpointFiles "/ckpt" (unequalListings rank) rank 2) ∧
      (((List.range 2).flatMap fun rank => (twoRanksTensors rank).tensors).map some).Perm
        (twoWeights.map (weightOf twoFiles "/ckpt")) := by
  obtain ⟨hfiles, htensors⟩ :=
    split_partitions_checkpoint twoFilesDirectory twoFiles twoWeights 2 (by decide) (by decide)
  obtain ⟨-, hevery⟩ := hfiles unequalListings unequalListings_perm
  refine ⟨(hevery _).mpr ⟨"b.safetensors", by decide, ?_, by decide⟩, ?_⟩
  · exact List.isSuffixOf_iff_suffix.mp (by decide)
  · exact htensors twoRanksTensors fun rank hrank => splitTensors_twoFiles hrank

end CheckpointEngine.Launch
