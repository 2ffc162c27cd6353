/-
  `Registry.TensorParallel`: `_load_checkpoint` on files that hold the shards of tensor
  parallel ranks, in any order of the files.

  `Loading` embeds the same functions for safetensors files, which are all of rank 0.
  The readers of the two formats and `torch.cat` are parameters here.
-/
import Mathlib.Data.List.Sort
import Mathlib.Algebra.Order.Ring.Int
import CheckpointEngine.Foundation.Text
import CheckpointEngine.Foundation.Dictionary
import CheckpointEngine.Foundation.Override
import CheckpointEngine.Foundation.Fallible
import CheckpointEngine.Foundation.Grouping
import CheckpointEngine.Registry.Pinning

set_option autoImplicit false

namespace CheckpointEngine.Registry.TensorParallel

open CheckpointEngine.Foundation

inductive LoadError where
  | raised (error : PyError)
  | indexError (message : String)
  deriving DecidableEq

/-- The position that `dim` stands for among `ndim` dimensions, negative ones counted from
the end. -/
def axis (dim : Int) (ndim : Nat) : Option Nat :=
  if 0 ≤ dim then if dim < ndim then some dim.toNat else none
  else if 0 ≤ dim + ndim then some (dim + ndim).toNat else none

/-- Two shapes agree in all dimensions but one. -/
def AgreeOutside (k : Option Nat) (shape shape' : TorchSize) : Prop :=
  shape.length = shape'.length ∧ ∀ i, some i ≠ k → shape[i]? = shape'[i]?

/-- `shape[k]`. -/
def extent (k : Nat) (shape : TorchSize) : Nat := shape[k]?.getD 0

/-- Tensors, and what is relied on of `torch.cat`: tensors of one dtype that agree outside
the dimension are concatenated. -/
structure Torch (Tensor : Type) where
  /-- `weight.dtype`, where it is a `torch.dtype` -/
  dtype : Tensor → Option DType
  dtypeText : Tensor → String
  shape : Tensor → TorchSize
  cat : List Tensor → Int → Except LoadError Tensor
  cat_ok : ∀ {tensors : List Tensor} {dim : Int} {type : DType} {shape₀ : TorchSize} {k : Nat},
    tensors ≠ [] → axis dim shape₀.length = some k →
    (∀ t ∈ tensors, dtype t = some type ∧ AgreeOutside (some k) (shape t) shape₀) →
    ∃ t, cat tensors dim = .ok t ∧ dtype t = some type ∧
      shape t = shape₀.set k (tensors.map fun t => extent k (shape t)).sum

/-- A weight of a file with its `FileMeta`, whose dtype and shape are the weight's. -/
structure Shard (Tensor : Type) where
  name : String
  weight : Tensor
  tpConcatDim : Int
  /-- `isinstance(meta["shape"], torch.Size)` -/
  shapeIsSize : Bool
  /-- `str(meta)` -/
  metaText : String
  deriving DecidableEq

/-- What the readers of the two formats find at a path. -/
structure Disk (Tensor : Type) where
  fastNpLoad : String → Except LoadError (List (Shard Tensor))
  safetensors : String → Except LoadError (List (String × Tensor))
  /-- `str` of the meta that `_safetensors_load` makes -/
  metaText : String → Tensor → String

/-- `os.path.basename`. -/
def basename (filePath : String) : Text := ((Text.split '/' filePath.toList).getLast?).getD []

/-- The rank in a file name `model.{layer}.{tp}[.{ep}].npy`. -/
def tpRankOf (filePath : String) : Except LoadError Int :=
  let filenameSplit := Text.split '.' (basename filePath)
  if 3 < filenameSplit.length then
    let part := (filenameSplit[2]?).getD []
    match Text.toInt? part with
    | some tpRank => .ok tpRank
    | none =>
        let literal := String.ofList part
        .error (.raised (.valueError s!"invalid literal for int() with base 10: '{literal}'"))
  else .ok 0

variable {Tensor : Type}

def safetensorsLoad (disk : Disk Tensor) (filePath : String) :
    Except LoadError (List (Shard Tensor)) :=
  (disk.safetensors filePath).map fun weights => weights.map fun (name, weight) =>
    { name, weight, tpConcatDim := -1, shapeIsSize := true, metaText := disk.metaText name weight }

def loadCheckpointFile (disk : Disk Tensor) (filePath : String) :
    Except LoadError (Int × List (Shard Tensor)) := do
  if ".npy".toList.isSuffixOf filePath.toList then
    let tpRank ← tpRankOf filePath
    let ret ← disk.fastNpLoad filePath
    return (tpRank, ret)
  else if ".safetensors".toList.isSuffixOf filePath.toList then
    let ret ← safetensorsLoad disk filePath
    return (0, ret)
  else
    throw (.raised (.valueError s!"unsupported file format: {filePath}"))

structure TPMeta where
  concatDim : Int
  size : Int
  deriving DecidableEq

/-- What the loop over the files has gathered. -/
structure Gathered (Tensor : Type) where
  parameterMetas : String → Option ParameterMeta
  tpMetas : String → Option TPMeta
  /-- the keys of `tp_metas`, in the order in which they were entered -/
  names : List String
  parametersWithTp : String → List (Int × Tensor)

def Gathered.empty : Gathered Tensor := ⟨fun _ => none, fun _ => none, [], fun _ => []⟩

/-- `tp_meta.size = max(tp_meta.size, tp_rank + 1)`, where it has a dimension. -/
def TPMeta.see (tpMeta : TPMeta) (tpRank : Int) : TPMeta :=
  if tpMeta.concatDim ≠ -1 then { tpMeta with size := max tpMeta.size (tpRank + 1) } else tpMeta

section Functions

variable (torch : Torch Tensor)

/-- The `ParameterMeta` that is made of the first shard of a parameter. -/
def assertMeta (shard : Shard Tensor) : Except LoadError ParameterMeta :=
  match torch.dtype shard.weight with
  | none =>
      .error (.raised (.assertionError s!"meta {shard.metaText} dtype should be torch.dtype"))
  | some dtype =>
      if shard.shapeIsSize then
        let shape := torch.shape shard.weight
        .ok { name := shard.name, dtype, shape, alignedSize := alignSize dtype shape }
      else
        .error (.raised (.assertionError s!"meta {shard.metaText} shape should be torch.Size"))

/-- `parameter_metas[parameter_name]`, made of the shard where there is none. -/
def Gathered.metaFor (gathered : Gathered Tensor) (shard : Shard Tensor) :
    Except LoadError ParameterMeta :=
  match gathered.parameterMetas shard.name with
  | some parameterMeta => .ok parameterMeta
  | none => assertMeta torch shard

/-- The dictionaries with the entries of a shard. -/
def Gathered.put (gathered : Gathered Tensor) (tpRank : Int) (shard : Shard Tensor)
    (parameterMeta : ParameterMeta) : Gathered Tensor :=
  let name := shard.name
  let tpMeta := (gathered.tpMetas name).getD ⟨shard.tpConcatDim, 1⟩
  { parameterMetas := Function.update gathered.parameterMetas name (some parameterMeta)
    tpMetas := Function.update gathered.tpMetas name (some (tpMeta.see tpRank))
    names := if name ∈ gathered.names then gathered.names else gathered.names ++ [name]
    parametersWithTp := Function.update gathered.parametersWithTp name
      (setItem Prod.fst (tpRank, shard.weight) (gathered.parametersWithTp name)) }

/-- One iteration of the loop over the weights of a file. -/
def Gathered.add (tpRank : Int) (gathered : Gathered Tensor) (shard : Shard Tensor) :
    Except LoadError (Gathered Tensor) := do
  let parameterMeta ← gathered.metaFor torch shard
  return gathered.put tpRank shard parameterMeta

/-- The loop over the files. -/
def gather (disk : Disk Tensor) (files : List String) : Except LoadError (Gathered Tensor) :=
  files.foldlM (fun gathered file => do
    let (tpRank, ret) ← loadCheckpointFile disk file
    ret.foldlM (Gathered.add torch tpRank) gathered) .empty

def concatTpWeights (tpWeights : List Tensor) (tpConcatDim tpSize : Int) :
    Except LoadError Tensor :=
  match tpWeights with
  | [] =>
      if tpConcatDim = -1 then .error (.indexError "list index out of range")
      else if tpSize ≠ 0 then .error (.raised (.assertionError ""))
      else torch.cat [] tpConcatDim
  | first :: rest =>
      if tpConcatDim = -1 then .ok first
      else if tpSize ≠ (first :: rest).length then .error (.raised (.assertionError ""))
      else if (first :: rest).length = 1 then .ok first
      else torch.cat (first :: rest) tpConcatDim

/-- The meta with the shape of all shards together. -/
def scaleMeta (parameterMeta : ParameterMeta) (tpMeta : TPMeta) : Except LoadError ParameterMeta :=
  if tpMeta.concatDim ≠ -1 then
    match axis tpMeta.concatDim parameterMeta.shape.length with
    | none => .error (.indexError "list index out of range")
    | some k =>
        let shape := parameterMeta.shape.set k (extent k parameterMeta.shape * tpMeta.size.toNat)
        .ok { parameterMeta with shape, alignedSize := alignSize parameterMeta.dtype shape }
  else .ok parameterMeta

/-- One iteration of the loop over `tp_metas`. -/
def combine (parameterMeta : ParameterMeta) (tpMeta : TPMeta) (weights : List (Int × Tensor)) :
    Except LoadError (ParameterMeta × Tensor) := do
  let scaled ← scaleMeta parameterMeta tpMeta
  let weightsInCpu := (weights.insertionSort fun x y => x.1 ≤ y.1).map Prod.snd
  let parameter ← concatTpWeights torch weightsInCpu tpMeta.concatDim tpMeta.size
  return (scaled, parameter)

def Gathered.combine (gathered : Gathered Tensor) (name : String) :
    Except LoadError (String × ParameterMeta × Tensor) :=
  match gathered.parameterMetas name, gathered.tpMetas name with
  | some parameterMeta, some tpMeta => do
      let result ←
        TensorParallel.combine torch parameterMeta tpMeta (gathered.parametersWithTp name)
      return (name, result)
  | _, _ => .error (.raised (.keyError name))

/-- The assertions on a parameter that has been loaded. -/
def checkParameter (loaded : String × ParameterMeta × Tensor) : Except LoadError Unit :=
  let (name, parameterMeta, parameter) := loaded
  let shape := torch.shape parameter
  let dtype := torch.dtypeText parameter
  if parameterMeta.shape ≠ shape then
    .error (.raised (.assertionError (s!"parameter {name} shape mismatch, " ++
      s!"torch.Size({parameterMeta.shape}) != torch.Size({shape})")))
  else if some parameterMeta.dtype ≠ torch.dtype parameter then
    .error (.raised (.assertionError (s!"parameter {name} dtype mismatch, " ++
      s!"{parameterMeta.dtype.text} != {dtype}")))
  else .ok ()

def loadCheckpoint (disk : Disk Tensor) (files : List String) :
    Except LoadError (List (String × Tensor)) := do
  let gathered ← gather torch disk files
  let loaded ← gathered.names.mapM (gathered.combine torch)
  loaded.forM (checkParameter torch)
  return loaded.map fun (name, _, parameter) => (name, parameter)

end Functions

/-! ## What is gathered -/

/-- The shards in the files, each with the rank of its file. -/
def loadShards (disk : Disk Tensor) (files : List String) :
    Except LoadError (List (Int × Shard Tensor)) := do
  let loaded ← files.mapM (loadCheckpointFile disk)
  return loaded.flatMap fun (tpRank, ret) => ret.map fun shard => (tpRank, shard)

/-- The shards of one parameter. -/
def shardsOf (name : String) (items : List (Int × Shard Tensor)) : List (Int × Shard Tensor) :=
  items.filter fun x => x.2.name = name

/-- `tp_meta.size` after these shards. -/
def tpSize (dim : Int) (shards : List (Int × Shard Tensor)) : Int :=
  shards.foldl (fun size x => if dim ≠ -1 then max size (x.1 + 1) else size) 1

/-- The weights under the ranks of these shards. -/
def weightsOf (shards : List (Int × Shard Tensor)) : List (Int × Tensor) :=
  shards.foldl (fun weights x => setItem Prod.fst (x.1, x.2.weight) weights) []

theorem shardsOf_append_singleton (name : String) (items : List (Int × Shard Tensor))
    (x : Int × Shard Tensor) :
    shardsOf name (items ++ [x]) =
      if x.2.name = name then shardsOf name items ++ [x] else shardsOf name items := by
  rw [shardsOf, List.filter_append, shardsOf]
  by_cases h : x.2.name = name
  · rw [if_pos h, List.filter_singleton, decide_eq_true h]
    rfl
  · rw [if_neg h, List.filter_singleton, decide_eq_false h]
    exact List.append_nil _

theorem tpSize_append_singleton (dim : Int) (shards : List (Int × Shard Tensor))
    (x : Int × Shard Tensor) :
    (⟨dim, tpSize dim (shards ++ [x])⟩ : TPMeta) = (⟨dim, tpSize dim shards⟩ : TPMeta).see x.1 := by
  rw [tpSize, List.foldl_append, TPMeta.see, ← tpSize]
  by_cases h : dim ≠ -1
  · simp only [List.foldl_cons, List.foldl_nil, if_pos h]
  · simp only [List.foldl_cons, List.foldl_nil, if_neg h]

section Gathering

variable {torch : Torch Tensor} {items : List (Int × Shard Tensor)} {g g' : Gathered Tensor}

/-- The dictionaries after these shards. -/
structure Described (torch : Torch Tensor) (items : List (Int × Shard Tensor))
    (g : Gathered Tensor) : Prop where
  parameterMetas : ∀ name, g.parameterMetas name =
    (shardsOf name items).head?.bind fun x => (assertMeta torch x.2).toOption
  tpMetas : ∀ name, g.tpMetas name = (shardsOf name items).head?.map fun x =>
    ⟨x.2.tpConcatDim, tpSize x.2.tpConcatDim (shardsOf name items)⟩
  names_nodup : g.names.Nodup
  names : ∀ name, name ∈ g.names ↔ shardsOf name items ≠ []
  parametersWithTp : ∀ name, g.parametersWithTp name = weightsOf (shardsOf name items)

/-- The first shard of every parameter passes the assertions. -/
def Typed (torch : Torch Tensor) (items : List (Int × Shard Tensor)) : Prop :=
  ∀ name x, (shardsOf name items).head? = some x → ∃ parameterMeta,
    assertMeta torch x.2 = .ok parameterMeta

theorem head?_append_singleton {α : Type} (xs : List α) (x : α) :
    (xs ++ [x]).head? = xs.head?.or (some x) := by
  rw [List.head?_append, List.head?_singleton]

/-- The first shard of a parameter stays the first. -/
theorem head?_shardsOf_append {name : String} {x y : Int × Shard Tensor}
    (h : (shardsOf name items).head? = some y) :
    (shardsOf name (items ++ [x])).head? = some y := by
  rw [shardsOf_append_singleton]
  split
  · rw [head?_append_singleton, h, Option.some_or]
  · exact h

theorem Typed.of_append {x : Int × Shard Tensor} (h : Typed torch (items ++ [x])) :
    Typed torch items :=
  fun name y hy => h name y (head?_shardsOf_append hy)

/-- An iteration has the meta of the parameter's first shard. -/
theorem metaFor_eq (x : Int × Shard Tensor) (hdescribed : Described torch items g)
    (htyped : Typed torch items) :
    ∃ first, (shardsOf x.2.name (items ++ [x])).head? = some first ∧
      g.metaFor torch x.2 = assertMeta torch first.2 := by
  rw [shardsOf_append_singleton, if_pos rfl, head?_append_singleton, Gathered.metaFor,
    hdescribed.parameterMetas]
  cases hfirst : (shardsOf x.2.name items).head? with
  | none => exact ⟨x, rfl, rfl⟩
  | some first =>
      obtain ⟨parameterMeta, hmeta⟩ := htyped _ first hfirst
      refine ⟨first, rfl, ?_⟩
      rw [Option.bind_some, hmeta]
      rfl

theorem tpMetas_getD (x : Int × Shard Tensor) {first : Int × Shard Tensor}
    (hdescribed : Described torch items g)
    (hfirst : (shardsOf x.2.name (items ++ [x])).head? = some first) :
    (g.tpMetas x.2.name).getD ⟨x.2.tpConcatDim, 1⟩ =
      ⟨first.2.tpConcatDim, tpSize first.2.tpConcatDim (shardsOf x.2.name items)⟩ := by
  rw [shardsOf_append_singleton, if_pos rfl, head?_append_singleton] at hfirst
  rw [hdescribed.tpMetas]
  cases hhead : (shardsOf x.2.name items).head? with
  | none =>
      rw [hhead, Option.none_or, Option.some.injEq] at hfirst
      rw [List.head?_eq_none_iff.mp hhead, hfirst]
      rfl
  | some y =>
      rw [hhead, Option.some_or, Option.some.injEq] at hfirst
      rw [hfirst]
      rfl

theorem put_parameterMetas (tpRank : Int) (shard : Shard Tensor) (parameterMeta : ParameterMeta) :
    (g.put tpRank shard parameterMeta).parameterMetas =
      Function.update g.parameterMetas shard.name (some parameterMeta) := rfl

theorem put_tpMetas (tpRank : Int) (shard : Shard Tensor) (parameterMeta : ParameterMeta) :
    (g.put tpRank shard parameterMeta).tpMetas = Function.update g.tpMetas shard.name
      (some (((g.tpMetas shard.name).getD ⟨shard.tpConcatDim, 1⟩).see tpRank)) := rfl

theorem put_names (tpRank : Int) (shard : Shard Tensor) (parameterMeta : ParameterMeta) :
    (g.put tpRank shard parameterMeta).names =
      if shard.name ∈ g.names then g.names else g.names ++ [shard.name] := rfl

theorem put_parametersWithTp (tpRank : Int) (shard : Shard Tensor)
    (parameterMeta : ParameterMeta) :
    (g.put tpRank shard parameterMeta).parametersWithTp =
      Function.update g.parametersWithTp shard.name
        (setItem Prod.fst (tpRank, shard.weight) (g.parametersWithTp shard.name)) := rfl

theorem Described.put {x first : Int × Shard Tensor} {parameterMeta : ParameterMeta}
    (hdescribed : Described torch items g)
    (hfirst : (shardsOf x.2.name (items ++ [x])).head? = some first)
    (hmeta : assertMeta torch first.2 = .ok parameterMeta) :
    Described torch (items ++ [x]) (g.put x.1 x.2 parameterMeta) := by
  have hold : ∀ {name}, name ≠ x.2.name → shardsOf name (items ++ [x]) = shardsOf name items := by
    intro name hname
    rw [shardsOf_append_singleton, if_neg (Ne.symm hname)]
  have hnew : shardsOf x.2.name (items ++ [x]) = shardsOf x.2.name items ++ [x] := by
    rw [shardsOf_append_singleton, if_pos rfl]
  refine ⟨fun name => ?_, fun name => ?_, ?_, fun name => ?_, fun name => ?_⟩
  · cases decEq name x.2.name with
    | isTrue heq =>
        rw [heq, put_parameterMetas, Function.update_self, hfirst, Option.bind_some, hmeta]
        rfl
    | isFalse hne =>
        rw [put_parameterMetas, Function.update_of_ne hne, hold hne, hdescribed.parameterMetas]
  · cases decEq name x.2.name with
    | isTrue heq =>
        rw [heq, put_tpMetas, Function.update_self, tpMetas_getD x hdescribed hfirst, hfirst,
          Option.map_some, hnew, tpSize_append_singleton]
    | isFalse hne =>
        rw [put_tpMetas, Function.update_of_ne hne, hold hne, hdescribed.tpMetas]
  · rw [put_names]
    split
    · exact hdescribed.names_nodup
    · rename_i hnot
      refine List.nodup_append.mpr ⟨hdescribed.names_nodup, List.nodup_singleton _, ?_⟩
      rintro y hy z hz rfl
      rw [List.mem_singleton.mp hz] at hy
      exact hnot hy
  · have hmem : name ∈ (g.put x.1 x.2 parameterMeta).names ↔
        name ∈ g.names ∨ name = x.2.name := by
      rw [put_names]
      split
      · rename_i hknown
        exact ⟨Or.inl, fun h => h.elim id fun heq => heq ▸ hknown⟩
      · rw [List.mem_append, List.mem_singleton]
    rw [hmem, hdescribed.names]
    cases decEq name x.2.name with
    | isTrue heq =>
        rw [heq, hnew]
        exact iff_of_true (Or.inr rfl) (List.append_ne_nil_of_right_ne_nil _ (List.cons_ne_nil _ _))
    | isFalse hne => rw [hold hne, or_iff_left hne]
  · cases decEq name x.2.name with
    | isTrue heq =>
        rw [heq, put_parametersWithTp, Function.update_self, hnew, hdescribed.parametersWithTp,
          weightsOf, weightsOf, List.foldl_append]
        rfl
    | isFalse hne =>
        rw [put_parametersWithTp, Function.update_of_ne hne, hold hne, hdescribed.parametersWithTp]

theorem Typed.append {x first : Int × Shard Tensor} {parameterMeta : ParameterMeta}
    (htyped : Typed torch items)
    (hfirst : (shardsOf x.2.name (items ++ [x])).head? = some first)
    (hmeta : assertMeta torch first.2 = .ok parameterMeta) : Typed torch (items ++ [x]) := by
  intro name y hy
  cases decEq name x.2.name with
  | isTrue heq =>
      rw [heq, hfirst, Option.some.injEq] at hy
      exact ⟨parameterMeta, hy ▸ hmeta⟩
  | isFalse hne =>
      rw [shardsOf_append_singleton, if_neg (Ne.symm hne)] at hy
      exact htyped name y hy

/-- The loop over all shards, one file after the other. -/
def gatherShards (torch : Torch Tensor) (g : Gathered Tensor) (items : List (Int × Shard Tensor)) :
    Except LoadError (Gathered Tensor) :=
  items.foldlM (fun g x => g.add torch x.1 x.2) g

theorem described_empty : Described torch [] (Gathered.empty : Gathered Tensor) where
  parameterMetas _ := rfl
  tpMetas _ := rfl
  names_nodup := List.nodup_nil
  names _ := iff_of_false List.not_mem_nil (not_not_intro rfl)
  parametersWithTp _ := rfl

theorem gatherShards_append (x : Int × Shard Tensor) :
    gatherShards torch .empty (items ++ [x]) = .ok g ↔
      ∃ g', gatherShards torch .empty items = .ok g' ∧ g'.add torch x.1 x.2 = .ok g := by
  rw [gatherShards, List.foldlM_append, bind_eq_ok]
  refine exists_congr fun g' => and_congr_right fun _ => ?_
  rw [List.foldlM_cons, bind_eq_ok]
  constructor
  · rintro ⟨g'', hadd, h⟩
    cases h
    exact hadd
  · exact fun hadd => ⟨g, hadd, rfl⟩

/-- What the loop gathers, when it does. -/
theorem described_of_gatherShards (h : gatherShards torch .empty items = .ok g) :
    Typed torch items ∧ Described torch items g := by
  induction items using List.reverseRecOn generalizing g with
  | nil =>
      cases h
      exact ⟨fun _ _ hx => (nomatch hx), described_empty⟩
  | append_singleton items x ih =>
      obtain ⟨g', hg', hadd⟩ := (gatherShards_append x).mp h
      obtain ⟨htyped, hdescribed⟩ := ih hg'
      obtain ⟨first, hfirst, hmetaFor⟩ := metaFor_eq x hdescribed htyped
      obtain ⟨parameterMeta, hmeta, hput⟩ := bind_eq_ok.mp hadd
      cases hput
      have hassert := hmetaFor.symm.trans hmeta
      exact ⟨htyped.append hfirst hassert, hdescribed.put hfirst hassert⟩

theorem exists_gatherShards (h : Typed torch items) :
    ∃ g, gatherShards torch .empty items = .ok g := by
  induction items using List.reverseRecOn with
  | nil => exact ⟨_, rfl⟩
  | append_singleton items x ih =>
      obtain ⟨g', hg'⟩ := ih h.of_append
      obtain ⟨htyped, hdescribed⟩ := described_of_gatherShards hg'
      obtain ⟨first, hfirst, hmetaFor⟩ := metaFor_eq x hdescribed htyped
      obtain ⟨parameterMeta, hmeta⟩ := h _ first hfirst
      refine ⟨g'.put x.1 x.2 parameterMeta, (gatherShards_append x).mpr ⟨g', hg', ?_⟩⟩
      exact bind_eq_ok.mpr ⟨parameterMeta, hmetaFor.trans hmeta, rfl⟩

/-- The nested loops go over the shards of the files one after the other. -/
theorem gather_eq_ok_iff {disk : Disk Tensor} {files : List String} :
    gather torch disk files = .ok g ↔
      ∃ items, loadShards disk files = .ok items ∧ gatherShards torch .empty items = .ok g := by
  have hloops : ∀ g₀, files.foldlM (fun gathered file => do
        let (tpRank, ret) ← loadCheckpointFile disk file
        ret.foldlM (Gathered.add torch tpRank) gathered) g₀ = .ok g ↔
      ∃ items, loadShards disk files = .ok items ∧ gatherShards torch g₀ items = .ok g := by
    induction files with
    | nil =>
        intro g₀
        rw [List.foldlM_nil, loadShards, List.mapM_nil]
        constructor
        · intro h
          exact ⟨[], rfl, h⟩
        · rintro ⟨items, hitems, h⟩
          cases hitems
          exact h
    | cons file rest ih =>
        intro g₀
        rw [List.foldlM_cons, bind_eq_ok]
        simp only [bind_eq_ok, ih, loadShards, List.mapM_cons]
        constructor
        · rintro ⟨g₁, ⟨⟨tpRank, ret⟩, hfile, hret⟩, items, ⟨loaded, hloaded, hitems⟩, h⟩
          cases hitems
          refine ⟨_, ⟨_, ⟨_, hfile, _, hloaded, rfl⟩, rfl⟩, ?_⟩
          rw [List.flatMap_cons, gatherShards, List.foldlM_append, List.foldlM_map]
          exact bind_eq_ok.mpr ⟨g₁, hret, h⟩
        · rintro ⟨items, ⟨loaded, ⟨⟨tpRank, ret⟩, hfile, tail, htail, hloaded⟩, hitems⟩, h⟩
          cases hloaded
          cases hitems
          rw [List.flatMap_cons, gatherShards, List.foldlM_append, List.foldlM_map] at h
          obtain ⟨g₁, hret, h⟩ := bind_eq_ok.mp h
          exact ⟨g₁, ⟨_, hfile, hret⟩, _, ⟨_, htail, rfl⟩, h⟩
  exact hloops .empty

end Gathering

/-! ## What is returned -/

/-- These shards of one parameter are combined to the tensor, and it passes the
assertions. -/
def Yields (torch : Torch Tensor) (shards : List (Int × Shard Tensor)) (parameter : Tensor) :
    Prop :=
  ∃ first parameterMeta scaled, shards.head? = some first ∧
    assertMeta torch first.2 = .ok parameterMeta ∧
    combine torch parameterMeta
      ⟨first.2.tpConcatDim, tpSize first.2.tpConcatDim shards⟩ (weightsOf shards) =
        .ok (scaled, parameter) ∧
    scaled.shape = torch.shape parameter ∧ some scaled.dtype = torch.dtype parameter

theorem checkParameter_eq_ok {torch : Torch Tensor} {name : String}
    {parameterMeta : ParameterMeta} {parameter : Tensor} :
    checkParameter torch (name, parameterMeta, parameter) = .ok () ↔
      parameterMeta.shape = torch.shape parameter ∧
        some parameterMeta.dtype = torch.dtype parameter := by
  rw [checkParameter]
  by_cases hshape : parameterMeta.shape = torch.shape parameter
  · rw [if_neg (not_not_intro hshape)]
    by_cases hdtype : some parameterMeta.dtype = torch.dtype parameter
    · rw [if_neg (not_not_intro hdtype)]
      exact iff_of_true rfl ⟨hshape, hdtype⟩
    · rw [if_pos hdtype]
      exact iff_of_false (fun h => nomatch h) fun h => hdtype h.2
  · rw [if_pos hshape]
    exact iff_of_false (fun h => nomatch h) fun h => hshape h.1

section Loading

variable {torch : Torch Tensor} {disk : Disk Tensor} {files : List String}
  {items : List (Int × Shard Tensor)} {g : Gathered Tensor}

/-- The two loops behind the gathering treat a parameter as its shards say. -/
theorem combine_and_check_iff (hdescribed : Described torch items g) (htyped : Typed torch items)
    {name : String} (hname : name ∈ g.names) {parameter : Tensor} :
    (∃ parameterMeta, g.combine torch name = .ok (name, parameterMeta, parameter) ∧
      checkParameter torch (name, parameterMeta, parameter) = .ok ()) ↔
      Yields torch (shardsOf name items) parameter := by
  obtain ⟨first, hfirst⟩ := Option.isSome_iff_exists.mp
    (List.isSome_head?.mpr ((hdescribed.names name).mp hname))
  obtain ⟨parameterMeta, hmeta⟩ := htyped name first hfirst
  have hcombine : g.combine torch name = do
      let result ← combine torch parameterMeta
        ⟨first.2.tpConcatDim, tpSize first.2.tpConcatDim (shardsOf name items)⟩
        (weightsOf (shardsOf name items))
      return (name, result) := by
    rw [Gathered.combine, hdescribed.parameterMetas, hdescribed.tpMetas,
      hdescribed.parametersWithTp, hfirst, Option.bind_some, hmeta]
    rfl
  constructor
  · rintro ⟨scaled, hscaled, hcheck⟩
    rw [hcombine] at hscaled
    obtain ⟨result, hresult, hpair⟩ := bind_eq_ok.mp hscaled
    cases hpair
    exact ⟨first, parameterMeta, scaled, hfirst, hmeta, hresult, checkParameter_eq_ok.mp hcheck⟩
  · rintro ⟨first', parameterMeta', scaled, hfirst', hmeta', hresult, hcheck⟩
    obtain rfl := Option.some.inj (hfirst.symm.trans hfirst')
    obtain rfl := Except.ok.inj (hmeta.symm.trans hmeta')
    refine ⟨scaled, ?_, checkParameter_eq_ok.mpr hcheck⟩
    rw [hcombine]
    exact bind_eq_ok.mpr ⟨_, hresult, rfl⟩

theorem combine_fst {name name' : String} {result : ParameterMeta × Tensor}
    (h : g.combine torch name = .ok (name', result)) : name' = name := by
  rw [Gathered.combine] at h
  split at h
  · obtain ⟨result', -, hpair⟩ := bind_eq_ok.mp h
    cases hpair
    rfl
  · cases h

/-- A load that succeeds gives each parameter what its shards are combined to. -/
theorem mem_loadCheckpoint {params : List (String × Tensor)}
    (h : loadCheckpoint torch disk files = .ok params)
    (hitems : loadShards disk files = .ok items) :
    (∀ name, shardsOf name items ≠ [] → ∃ parameter, (name, parameter) ∈ params) ∧
      ∀ name parameter, (name, parameter) ∈ params →
        shardsOf name items ≠ [] ∧ Yields torch (shardsOf name items) parameter := by
  obtain ⟨g, hg, h⟩ := bind_eq_ok.mp h
  obtain ⟨items', hitems', hgather⟩ := gather_eq_ok_iff.mp hg
  obtain rfl := Except.ok.inj (hitems'.symm.trans hitems)
  obtain ⟨htyped, hdescribed⟩ := described_of_gatherShards hgather
  obtain ⟨loaded, hloaded, h⟩ := bind_eq_ok.mp h
  obtain ⟨⟨⟩, hchecks, h⟩ := bind_eq_ok.mp h
  cases h
  have hcombined := mapM_eq_ok_iff.mp hloaded
  have hmem : ∀ {name parameter},
      (name, parameter) ∈ loaded.map (fun x : String × ParameterMeta × Tensor => (x.1, x.2.2)) ↔
        ∃ parameterMeta, (name, parameterMeta, parameter) ∈ loaded := by
    intro name parameter
    simp only [List.mem_map, Prod.mk.injEq]
    constructor
    · rintro ⟨⟨_, parameterMeta, _⟩, hx, rfl, rfl⟩
      exact ⟨parameterMeta, hx⟩
    · rintro ⟨parameterMeta, hx⟩
      exact ⟨_, hx, rfl, rfl⟩
  constructor
  · intro name hname
    obtain ⟨⟨name', parameterMeta, parameter⟩, hx, hcombine⟩ :=
      exists_of_forall₂ hcombined ((hdescribed.names name).mpr hname)
    obtain rfl := combine_fst hcombine
    exact ⟨parameter, hmem.mpr ⟨parameterMeta, hx⟩⟩
  · intro name parameter hparam
    obtain ⟨parameterMeta, hx⟩ := hmem.mp hparam
    obtain ⟨name', hname', hcombine⟩ := exists_of_forall₂ hcombined.flip hx
    obtain rfl := combine_fst hcombine
    refine ⟨(hdescribed.names _).mp hname', ?_⟩
    exact (combine_and_check_iff hdescribed htyped hname').mp
      ⟨parameterMeta, hcombine, forM_eq_ok_iff.mp hchecks _ hx⟩

/-- A load succeeds when the files can be read and the shards of every parameter be
combined. -/
theorem exists_loadCheckpoint (hitems : loadShards disk files = .ok items)
    (hyields : ∀ name, shardsOf name items ≠ [] →
      ∃ parameter, Yields torch (shardsOf name items) parameter) :
    ∃ params, loadCheckpoint torch disk files = .ok params := by
  have htyped : Typed torch items := by
    intro name x hx
    have hne : shardsOf name items ≠ [] := fun hnil => by
      rw [hnil] at hx
      cases hx
    obtain ⟨-, first, parameterMeta, -, hfirst, hmeta, -⟩ := hyields name hne
    obtain rfl := Option.some.inj (hfirst.symm.trans hx)
    exact ⟨parameterMeta, hmeta⟩
  obtain ⟨g, hgather⟩ := exists_gatherShards htyped
  obtain ⟨-, hdescribed⟩ := described_of_gatherShards hgather
  have hall : ∀ name ∈ g.names, ∃ x, g.combine torch name = .ok x ∧
      checkParameter torch x = .ok () := by
    intro name hname
    obtain ⟨parameter, hparameter⟩ := hyields name ((hdescribed.names name).mp hname)
    obtain ⟨parameterMeta, hcombine, hcheck⟩ :=
      (combine_and_check_iff hdescribed htyped hname).mpr hparameter
    exact ⟨_, hcombine, hcheck⟩
  obtain ⟨loaded, hloaded, hchecks⟩ := exists_mapM hall
  refine ⟨loaded.map fun x => (x.1, x.2.2), ?_⟩
  refine bind_eq_ok.mpr ⟨g, gather_eq_ok_iff.mpr ⟨items, hitems, hgather⟩, ?_⟩
  exact bind_eq_ok.mpr ⟨loaded, hloaded,
    bind_eq_ok.mpr ⟨⟨⟩, forM_eq_ok_iff.mpr hchecks, rfl⟩⟩

end Loading

end CheckpointEngine.Registry.TensorParallel
