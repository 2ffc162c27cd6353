/-
  `Registry.ShardedArrays`: a checkpoint that has been cut into array files is put together
  again by `_load_checkpoint`, byte for byte.

  A file for each tensor parallel rank holds that rank's part of every tensor, cut along
  `tp_concat_dim`, or a copy where that is -1.  The rank is read off the file's name.
-/
import CheckpointEngine.Registry.ArrayFiles
import CheckpointEngine.Foundation.Chunks
import CheckpointEngine.Foundation.Grouping
import Mathlib.Algebra.BigOperators.Ring.List
import Mathlib.Data.List.FinRange
import Mathlib.Tactic.Ring

set_option autoImplicit false

namespace CheckpointEngine.Registry.TensorParallel

open CheckpointEngine.Foundation

/-! ## `torch.cat` -/

/-- Bytes for one index of the dimensions before `k`. -/
def ByteTensor.rowBytes (k : Nat) (t : ByteTensor) : Nat :=
  t.dtype.itemsize * (t.shape.drop k).prod

theorem numel_split (k : Nat) (shape : TorchSize) :
    numel shape = (shape.take k).prod * (shape.drop k).prod := by
  rw [← List.prod_append, List.take_append_drop]
  rfl

theorem prod_drop {k : Nat} {shape : TorchSize} (h : k < shape.length) :
    (shape.drop k).prod = extent k shape * (shape.drop (k + 1)).prod := by
  rw [List.drop_eq_getElem_cons h, List.prod_cons, extent, List.getElem?_eq_getElem h,
    Option.getD_some]

theorem ByteTensor.length_rows (t : ByteTensor) (k : Nat) :
    t.bytes.length = (t.shape.take k).prod * t.rowBytes k := by
  rw [t.length_bytes, numel_split k, rowBytes, Nat.mul_left_comm]

theorem numel_set {k : Nat} {shape : TorchSize} (h : k < shape.length) (n : Nat) :
    numel (shape.set k n) = (shape.take k).prod * (n * (shape.drop (k + 1)).prod) := by
  rw [numel, List.prod_set, if_pos h, Nat.mul_assoc]

/-- Shapes that agree outside a dimension agree before and behind it. -/
theorem AgreeOutside.take_eq {k : Nat} {shape shape' : TorchSize}
    (h : AgreeOutside (some k) shape shape') : shape.take k = shape'.take k := by
  refine List.ext_getElem? fun i => ?_
  rw [List.getElem?_take, List.getElem?_take]
  split
  · rename_i hlt
    exact h.2 i fun heq => Nat.ne_of_lt hlt (Option.some.inj heq)
  · rfl

theorem AgreeOutside.drop_eq {k : Nat} {shape shape' : TorchSize}
    (h : AgreeOutside (some k) shape shape') : shape.drop (k + 1) = shape'.drop (k + 1) := by
  refine List.ext_getElem? fun i => ?_
  rw [List.getElem?_drop, List.getElem?_drop]
  exact h.2 _ fun heq => by
    have := Option.some.inj heq
    omega

/-- The bytes of tensors that agree, concatenated along dimension `k`. -/
def catBytes (k : Nat) (tensors : List ByteTensor) (first : ByteTensor) : List UInt8 :=
  beside (first.shape.take k).prod (tensors.map fun t => (t.rowBytes k, t.bytes))

/-- Tensors that `torch.cat` concatenates without converting them. -/
def Joinable (k : Nat) (tensors : List ByteTensor) (first : ByteTensor) : Prop :=
  k < first.shape.length ∧
    ∀ t ∈ tensors, t.dtype = first.dtype ∧ AgreeOutside (some k) t.shape first.shape

instance (k : Nat) (tensors : List ByteTensor) (first : ByteTensor) :
    Decidable (Joinable k tensors first) := inferInstanceAs (Decidable (_ ∧ _))

theorem Joinable.rowBytes {k : Nat} {tensors : List ByteTensor} {first : ByteTensor}
    (h : Joinable k tensors first) {t : ByteTensor} (ht : t ∈ tensors) :
    t.rowBytes k = extent k t.shape * (first.dtype.itemsize * (first.shape.drop (k + 1)).prod) := by
  obtain ⟨hdtype, hagree⟩ := h.2 t ht
  have hlt : k < t.shape.length := hagree.1 ▸ h.1
  rw [ByteTensor.rowBytes, prod_drop hlt, hagree.drop_eq, hdtype, Nat.mul_left_comm]

theorem Joinable.length_catBytes {k : Nat} {tensors : List ByteTensor} {first : ByteTensor}
    (h : Joinable k tensors first) :
    (catBytes k tensors first).length = first.dtype.itemsize *
      numel (first.shape.set k (tensors.map fun t => extent k t.shape).sum) := by
  have hparts : ∀ part ∈ tensors.map (fun t => (t.rowBytes k, t.bytes)),
      part.2.length = (first.shape.take k).prod * part.1 := by
    intro part hpart
    obtain ⟨t, ht, rfl⟩ := List.mem_map.mp hpart
    rw [t.length_rows k, (h.2 t ht).2.take_eq]
  have hwidths : (tensors.map (fun t => (t.rowBytes k, t.bytes))).map Prod.fst =
      (tensors.map fun t => extent k t.shape).map
        (· * (first.dtype.itemsize * (first.shape.drop (k + 1)).prod)) := by
    rw [List.map_map, List.map_map]
    exact List.map_congr_left fun t ht => h.rowBytes ht
  rw [catBytes, length_beside hparts, hwidths, List.sum_map_mul_right, List.map_id',
    numel_set h.1]
  ring

/-- `torch.cat`; what it does of tensors that it has to convert, or that do not fit, is left
to `other`. -/
def ByteTensor.cat (other : List ByteTensor → Int → Except LoadError ByteTensor)
    (tensors : List ByteTensor) (dim : Int) : Except LoadError ByteTensor :=
  match tensors with
  | [] => other [] dim
  | first :: rest =>
      match axis dim first.shape.length with
      | none => other (first :: rest) dim
      | some k =>
          if h : Joinable k (first :: rest) first then
            .ok {
              dtype := first.dtype
              shape := first.shape.set k ((first :: rest).map fun t => extent k t.shape).sum
              bytes := catBytes k (first :: rest) first
              length_bytes := h.length_catBytes }
          else other (first :: rest) dim

theorem ByteTensor.cat_ok {other : List ByteTensor → Int → Except LoadError ByteTensor}
    {first : ByteTensor} {rest : List ByteTensor} {dim : Int} {k : Nat}
    (hk : axis dim first.shape.length = some k) (h : Joinable k (first :: rest) first) :
    ∃ t, ByteTensor.cat other (first :: rest) dim = .ok t ∧ t.dtype = first.dtype ∧
      t.shape = first.shape.set k ((first :: rest).map fun t => extent k t.shape).sum ∧
        t.bytes = catBytes k (first :: rest) first := by
  simp only [ByteTensor.cat, hk]
  rw [dif_pos h]
  exact ⟨_, rfl, rfl, rfl, rfl⟩

/-- Tensors by their bytes. -/
def byteTorch (other : List ByteTensor → Int → Except LoadError ByteTensor) : Torch ByteTensor where
  dtype t := some t.dtype
  dtypeText t := t.dtype.text
  shape := ByteTensor.shape
  cat := ByteTensor.cat other
  cat_ok := by
    intro tensors dim type shape₀ k hne hk hall
    obtain ⟨first, rest, rfl⟩ := List.exists_cons_of_ne_nil hne
    obtain ⟨htype, hagree⟩ := hall first List.mem_cons_self
    have haxis : axis dim first.shape.length = some k := by rw [hagree.1, hk]
    have hjoin : Joinable k (first :: rest) first := by
      refine ⟨axis_lt haxis, fun t ht => ?_⟩
      obtain ⟨htype', hagree'⟩ := hall t ht
      refine ⟨Option.some.inj (htype'.trans htype.symm), hagree'.1.trans hagree.1.symm, ?_⟩
      exact fun i hi => (hagree'.2 i hi).trans (hagree.2 i hi).symm
    obtain ⟨t, hcat, hdtype, hshape, -⟩ := @ByteTensor.cat_ok other _ _ _ _ haxis hjoin
    refine ⟨t, hcat, by rw [hdtype, htype], ?_⟩
    rw [hshape, hagree.set_eq]

/-! ## Tensors cut for tensor parallel ranks -/

/-- A tensor, and how `n` ranks hold it. -/
structure SplitTensor (n : Nat) where
  name : String
  tensor : ByteTensor
  tpConcatDim : Int
  /-- there is such a dimension, and the ranks can share it -/
  divides : tpConcatDim ≠ -1 → ∃ k, axis tpConcatDim tensor.shape.length = some k ∧
    n ∣ extent k tensor.shape
  /-- `str(meta)` of each rank's entry -/
  metaText : Fin n → String

namespace SplitTensor

variable {n : Nat} (x : SplitTensor n)

/-- The shape of a rank's part. -/
def partShape : TorchSize :=
  match concatAxis x.tpConcatDim x.tensor.shape with
  | none => x.tensor.shape
  | some k => x.tensor.shape.set k (extent k x.tensor.shape / n)

/-- Bytes of a rank's part for one index of the dimensions before `k`. -/
def partRow (k : Nat) : Nat :=
  extent k x.tensor.shape / n * (x.tensor.dtype.itemsize * (x.tensor.shape.drop (k + 1)).prod)

/-- The bytes of a rank's part. -/
def partBytes (tpRank : Nat) : List UInt8 :=
  match concatAxis x.tpConcatDim x.tensor.shape with
  | none => x.tensor.bytes
  | some k => strip (x.tensor.shape.take k).prod (n * x.partRow k) (tpRank * x.partRow k)
      ((tpRank + 1) * x.partRow k) x.tensor.bytes

variable {x}

theorem concatAxis_some {k : Nat} (h : concatAxis x.tpConcatDim x.tensor.shape = some k) :
    x.tpConcatDim ≠ -1 ∧ axis x.tpConcatDim x.tensor.shape.length = some k ∧
      k < x.tensor.shape.length ∧ n ∣ extent k x.tensor.shape := by
  rw [concatAxis] at h
  split at h
  · cases h
  · rename_i hdim
    obtain ⟨k', hk, hdvd⟩ := x.divides hdim
    obtain rfl := Option.some.inj (hk.symm.trans h)
    exact ⟨hdim, hk, axis_lt hk, hdvd⟩

theorem concatAxis_none (h : concatAxis x.tpConcatDim x.tensor.shape = none) :
    x.tpConcatDim = -1 := by
  by_contra hdim
  obtain ⟨k, hk, -⟩ := x.divides hdim
  rw [concatAxis, if_neg hdim, hk] at h
  cases h

theorem partShape_of_none (h : concatAxis x.tpConcatDim x.tensor.shape = none) :
    x.partShape = x.tensor.shape := by
  unfold partShape
  rw [h]

theorem partShape_of_some {k : Nat} (h : concatAxis x.tpConcatDim x.tensor.shape = some k) :
    x.partShape = x.tensor.shape.set k (extent k x.tensor.shape / n) := by
  unfold partShape
  rw [h]

theorem partBytes_of_none (h : concatAxis x.tpConcatDim x.tensor.shape = none) (tpRank : Nat) :
    x.partBytes tpRank = x.tensor.bytes := by
  unfold partBytes
  rw [h]

theorem partBytes_of_some {k : Nat} (h : concatAxis x.tpConcatDim x.tensor.shape = some k)
    (tpRank : Nat) : x.partBytes tpRank = strip (x.tensor.shape.take k).prod (n * x.partRow k)
      (tpRank * x.partRow k) ((tpRank + 1) * x.partRow k) x.tensor.bytes := by
  unfold partBytes
  rw [h]

theorem rowBytes_eq {k : Nat} (h : concatAxis x.tpConcatDim x.tensor.shape = some k) :
    x.tensor.rowBytes k = n * x.partRow k := by
  obtain ⟨-, -, hlt, hdvd⟩ := concatAxis_some h
  rw [ByteTensor.rowBytes, prod_drop hlt, partRow, ← Nat.mul_assoc n, Nat.mul_div_cancel' hdvd,
    Nat.mul_left_comm]

theorem length_partBytes {tpRank : Nat} (hrank : tpRank < n) :
    (x.partBytes tpRank).length = x.tensor.dtype.itemsize * numel x.partShape := by
  cases h : concatAxis x.tpConcatDim x.tensor.shape with
  | none =>
      rw [partBytes_of_none h, partShape_of_none h]
      exact x.tensor.length_bytes
  | some k =>
      have hrows : x.tensor.bytes.length = (x.tensor.shape.take k).prod * (n * x.partRow k) := by
        rw [x.tensor.length_rows k, rowBytes_eq h]
      rw [partBytes_of_some h, partShape_of_some h,
        length_strip hrows (Nat.mul_le_mul_right _ hrank), stop_sub_start,
        numel_set (concatAxis_some h).2.2.1, partRow]
      ring

variable (x)

/-- A rank's part. -/
def part (tpRank : Fin n) : ByteTensor where
  dtype := x.tensor.dtype
  shape := x.partShape
  bytes := x.partBytes tpRank
  length_bytes := length_partBytes tpRank.isLt

/-- What the file of a rank has for the tensor. -/
def shard (tpRank : Fin n) : Shard ByteTensor where
  name := x.name
  weight := x.part tpRank
  tpConcatDim := x.tpConcatDim
  shapeIsSize := true
  metaText := x.metaText tpRank

/-- The parts of all ranks. -/
def shards : List (Int × Shard ByteTensor) :=
  (List.finRange n).map fun tpRank => ((tpRank.val : Int), x.shard tpRank)

variable {x}

theorem mem_shards {y : Int × Shard ByteTensor} (h : y ∈ x.shards) :
    ∃ tpRank : Fin n, y = ((tpRank.val : Int), x.shard tpRank) := by
  obtain ⟨tpRank, -, rfl⟩ := List.mem_map.mp h
  exact ⟨tpRank, rfl⟩

theorem length_partShape : x.partShape.length = x.tensor.shape.length := by
  unfold partShape
  split
  · rfl
  · exact List.length_set

theorem part_of_shared (h : concatAxis x.tpConcatDim x.tensor.shape = none) (tpRank : Fin n) :
    x.part tpRank = x.tensor :=
  ByteTensor.ext rfl (partShape_of_none h) (partBytes_of_none h tpRank)

end SplitTensor

/-! ## One tensor is put together -/

theorem agreeOutside_refl (k : Option Nat) (shape : TorchSize) : AgreeOutside k shape shape :=
  ⟨rfl, fun _ _ => rfl⟩

theorem cat_singleton {other : List ByteTensor → Int → Except LoadError ByteTensor}
    {t : ByteTensor} {dim : Int} {k : Nat} (hk : axis dim t.shape.length = some k) :
    ByteTensor.cat other [t] dim = .ok t := by
  have hjoin : Joinable k [t] t := by
    refine ⟨axis_lt hk, fun t' ht' => ?_⟩
    obtain rfl := List.mem_singleton.mp ht'
    exact ⟨rfl, agreeOutside_refl _ _⟩
  obtain ⟨t', hcat, hdtype, hshape, hbytes⟩ := @ByteTensor.cat_ok other _ _ _ _ hk hjoin
  rw [hcat]
  refine congrArg Except.ok (ByteTensor.ext hdtype ?_ ?_)
  · rw [hshape, List.map_singleton, List.sum_singleton, set_extent]
  · rw [hbytes, catBytes, List.map_singleton, beside_singleton (t.length_rows k)]

namespace SplitTensor

variable {n : Nat} {x : SplitTensor n} {k : Nat}

theorem extent_partShape (h : concatAxis x.tpConcatDim x.tensor.shape = some k) :
    extent k x.partShape = extent k x.tensor.shape / n := by
  have hlt := (concatAxis_some h).2.2.1
  rw [partShape_of_some h, extent, List.getElem?_set_self hlt, Option.getD_some]

theorem rowBytes_part (h : concatAxis x.tpConcatDim x.tensor.shape = some k) (tpRank : Fin n) :
    (x.part tpRank).rowBytes k = x.partRow k := by
  have hlt := (concatAxis_some h).2.2.1
  have hshape : (x.part tpRank).shape = x.tensor.shape.set k (extent k x.tensor.shape / n) :=
    partShape_of_some h
  rw [ByteTensor.rowBytes, hshape, List.drop_set, if_neg (Nat.lt_irrefl k), Nat.sub_self,
    List.drop_eq_getElem_cons hlt, List.set_cons_zero, List.prod_cons, partRow]
  exact Nat.mul_left_comm _ _ _

theorem axis_part (hk : axis x.tpConcatDim x.tensor.shape.length = some k) (tpRank : Fin n) :
    axis x.tpConcatDim (x.part tpRank).shape.length = some k := by
  rw [show (x.part tpRank).shape = x.partShape from rfl, length_partShape, hk]

/-- There is a first part. -/
theorem exists_parts (x : SplitTensor n) (hn : 0 < n) :
    ∃ tpRank rest, (List.finRange n).map x.part = x.part tpRank :: rest := by
  obtain ⟨first, rest, hparts⟩ := List.exists_cons_of_ne_nil
    (l := (List.finRange n).map x.part) (by simp [Nat.ne_of_gt hn])
  have hfirst : first ∈ (List.finRange n).map x.part := hparts ▸ List.mem_cons_self
  obtain ⟨tpRank, -, rfl⟩ := List.mem_map.mp hfirst
  exact ⟨tpRank, rest, hparts⟩

/-- The parts of all ranks are concatenated to the tensor. -/
theorem cat_parts (other : List ByteTensor → Int → Except LoadError ByteTensor) (hn : 0 < n)
    (h : concatAxis x.tpConcatDim x.tensor.shape = some k) :
    ByteTensor.cat other ((List.finRange n).map x.part) x.tpConcatDim = .ok x.tensor := by
  obtain ⟨-, hk, hlt, hdvd⟩ := concatAxis_some h
  have hshape := partShape_of_some h
  have hpart : ∀ t ∈ (List.finRange n).map x.part, t.dtype = x.tensor.dtype ∧
      t.shape = x.partShape := by
    intro t ht
    obtain ⟨tpRank, -, rfl⟩ := List.mem_map.mp ht
    exact ⟨rfl, rfl⟩
  obtain ⟨tpRank, rest, hparts⟩ := exists_parts x hn
  have hjoin : Joinable k (x.part tpRank :: rest) (x.part tpRank) := by
    refine ⟨Nat.lt_of_lt_of_eq hlt length_partShape.symm, fun t ht => ?_⟩
    obtain ⟨hdtype, hsame⟩ := hpart t (hparts ▸ ht)
    rw [hsame]
    exact ⟨hdtype, agreeOutside_refl _ _⟩
  have haxis := axis_part hk tpRank
  obtain ⟨t, hcat, hdtype, hcatShape, hbytes⟩ := @ByteTensor.cat_ok other _ _ _ _ haxis hjoin
  rw [hparts, hcat]
  refine congrArg Except.ok (ByteTensor.ext hdtype ?_ ?_)
  · have hextents : (x.part tpRank :: rest).map (fun t => extent k t.shape) =
        List.replicate n (extent k x.tensor.shape / n) := by
      rw [← hparts, List.map_map]
      refine List.eq_replicate_iff.mpr ⟨by simp, fun e he => ?_⟩
      obtain ⟨tpRank', -, rfl⟩ := List.mem_map.mp he
      exact extent_partShape h
    have hset : (x.part tpRank).shape = _ := hshape
    rw [hcatShape, hextents, List.sum_replicate_nat, Nat.mul_div_cancel' hdvd, hset, List.set_set,
      set_extent]
  · have hrows : x.tensor.bytes.length = (x.tensor.shape.take k).prod * (n * x.partRow k) := by
      rw [x.tensor.length_rows k, rowBytes_eq h]
    have hstrips : (x.part tpRank :: rest).map (fun t => (t.rowBytes k, t.bytes)) =
        (List.range n).map fun r => (x.partRow k, strip (x.tensor.shape.take k).prod
          (n * x.partRow k) (r * x.partRow k) ((r + 1) * x.partRow k) x.tensor.bytes) := by
      rw [← hparts, List.map_map, ← List.map_coe_finRange_eq_range, List.map_map]
      refine List.map_congr_left fun tpRank _ => ?_
      exact Prod.ext (rowBytes_part h tpRank) (partBytes_of_some h tpRank)
    have htake : (x.part tpRank).shape.take k = x.tensor.shape.take k := by
      rw [show (x.part tpRank).shape = _ from hshape, List.take_set_of_le (Nat.le_refl k)]
    rw [hbytes, catBytes, hstrips, htake, beside_strips hrows]

theorem byRank_shards (x : SplitTensor n) : byRank x.shards = x.shards := by
  refine List.Pairwise.insertionSort_eq ?_
  rw [shards, List.pairwise_map]
  exact (List.pairwise_lt_finRange n).imp fun hlt => Int.ofNat_le.mpr (Nat.le_of_lt hlt)

theorem weights_shards (x : SplitTensor n) :
    (byRank x.shards).map (fun y => y.2.weight) = (List.finRange n).map x.part := by
  rw [byRank_shards, shards, List.map_map]
  rfl

/-- What the parts of all ranks amount to is the tensor. -/
theorem concatenation_shards (other : List ByteTensor → Int → Except LoadError ByteTensor)
    (hn : 0 < n) (x : SplitTensor n) :
    Concatenation (byteTorch other) x.tpConcatDim x.shards x.tensor := by
  obtain ⟨tpRank, rest, hparts⟩ := exists_parts x hn
  rw [Concatenation, weights_shards, hparts]
  simp only
  cases h : concatAxis x.tpConcatDim x.tensor.shape with
  | none =>
      rw [if_pos (.inl (concatAxis_none h)), part_of_shared h]
  | some k =>
      obtain ⟨hdim, hk, -⟩ := concatAxis_some h
      have hcat := cat_parts other hn h
      rw [hparts] at hcat
      by_cases hrest : rest = []
      · rw [if_pos (.inr hrest)]
        rw [hrest, cat_singleton (axis_part hk tpRank)] at hcat
        exact (Except.ok.inj hcat).symm
      · rw [if_neg (not_or.mpr ⟨hdim, hrest⟩)]
        exact hcat

theorem tpSize_finRange {dim : Int} (hdim : dim ≠ -1) (m : Nat) (f : Fin m → Shard ByteTensor) :
    tpSize dim ((List.finRange m).map fun r => ((r.val : Int), f r)) = max 1 (m : Int) := by
  induction m with
  | zero => rfl
  | succ m ih =>
      have hlast := tpSize_append_singleton dim
        ((List.finRange m).map fun r => ((r.val : Int), f r.castSucc)) ((m : Int), f (Fin.last m))
      rw [TPMeta.see, if_pos hdim, ih fun r => f r.castSucc] at hlast
      have hsplit : (List.finRange (m + 1)).map (fun r => ((r.val : Int), f r)) =
          (List.finRange m).map (fun r => ((r.val : Int), f r.castSucc)) ++
            [((m : Int), f (Fin.last m))] := by
        rw [List.finRange_succ_last, List.map_append, List.map_map]
        rfl
      have hsize : tpSize dim _ = max (max 1 (m : Int)) ((m : Int) + 1) :=
        congrArg TPMeta.size hlast
      rw [hsplit, hsize]
      omega

theorem length_shards (x : SplitTensor n) : x.shards.length = n := by
  rw [shards, List.length_map, List.length_finRange]

theorem regular_shards (other : List ByteTensor → Int → Except LoadError ByteTensor) (hn : 0 < n)
    (x : SplitTensor n) : Regular (byteTorch other) x.tpConcatDim x.shards := by
  refine ⟨fun _ _ => rfl, fun hdim => ⟨fun y hy => ?_, ?_⟩⟩
  · obtain ⟨tpRank, rfl⟩ := mem_shards hy
    obtain ⟨k, hk, -⟩ := x.divides hdim
    have hlength : ((byteTorch other).shape (x.part tpRank)).length = x.tensor.shape.length :=
      length_partShape
    rw [shard, hlength, hk]
    rfl
  · rw [length_shards, shards, tpSize_finRange hdim n x.shard]
    exact max_eq_right (by omega)

theorem fits_shards (other : List ByteTensor → Int → Except LoadError ByteTensor)
    {x : SplitTensor n} {first : Int × Shard ByteTensor} (hfirst : first ∈ x.shards) :
    Fits (byteTorch other) x.tpConcatDim x.shards first := by
  obtain ⟨tpRank, rfl⟩ := mem_shards hfirst
  refine ⟨rfl, fun _ k _ => ?_⟩
  have hextents : x.shards.map (fun y => extent k ((byteTorch other).shape y.2.weight)) =
      List.replicate n (extent k x.partShape) := by
    refine List.eq_replicate_iff.mpr ⟨by rw [List.length_map, length_shards], fun e he => ?_⟩
    obtain ⟨y, hy, rfl⟩ := List.mem_map.mp he
    obtain ⟨tpRank', rfl⟩ := mem_shards hy
    rfl
  rw [hextents, List.sum_replicate_nat, length_shards]
  exact Nat.mul_comm _ _

end SplitTensor

/-! ## All tensors -/

section Checkpoint

variable {n : Nat} {xs : List (SplitTensor n)}

/-- The parts of all tensors. -/
def allShards (xs : List (SplitTensor n)) : List (Int × Shard ByteTensor) :=
  xs.flatMap SplitTensor.shards

theorem shardsOf_shards (name : String) (x : SplitTensor n) :
    shardsOf name x.shards = if x.name = name then x.shards else [] := by
  have hname : ∀ y ∈ x.shards, y.2.name = x.name := by
    intro y hy
    obtain ⟨tpRank, rfl⟩ := SplitTensor.mem_shards hy
    rfl
  split
  · rename_i heq
    exact List.filter_eq_self.mpr fun y hy => decide_eq_true ((hname y hy).trans heq)
  · rename_i hne
    refine List.filter_eq_nil_iff.mpr fun y hy htrue => hne ?_
    exact (hname y hy).symm.trans (of_decide_eq_true htrue)

theorem shardsOf_allShards (hnames : (xs.map SplitTensor.name).Nodup) {x : SplitTensor n}
    (hx : x ∈ xs) : shardsOf x.name (allShards xs) = x.shards := by
  have hcut : ∀ ys : List (SplitTensor n), shardsOf x.name (allShards ys) =
      ys.flatMap fun y => if y.name = x.name then y.shards else [] := by
    intro ys
    rw [allShards, shardsOf, List.filter_flatMap]
    exact List.flatMap_congr fun y _ => shardsOf_shards x.name y
  obtain ⟨before, after, rfl⟩ := List.append_of_mem hx
  rw [List.map_append, List.map_cons, List.nodup_middle, List.nodup_cons,
    ← List.map_append] at hnames
  have hothers : ∀ y ∈ before ++ after, (if y.name = x.name then y.shards else []) = [] := by
    intro y hy
    refine if_neg fun heq => hnames.1 ?_
    rw [← heq]
    exact List.mem_map_of_mem hy
  have hbefore := List.flatMap_eq_nil_iff.mpr fun y hy => hothers y (List.mem_append_left _ hy)
  have hafter := List.flatMap_eq_nil_iff.mpr fun y hy => hothers y (List.mem_append_right _ hy)
  rw [hcut, List.flatMap_append, List.flatMap_cons, hbefore, hafter, if_pos rfl, List.nil_append,
    List.append_nil]

theorem consistent_allShards (other : List ByteTensor → Int → Except LoadError ByteTensor)
    (hnames : (xs.map SplitTensor.name).Nodup) :
    Consistent (byteTorch other) (allShards xs) where
  distinct := by
    have hkeys : (allShards xs).map (fun y => (y.2.name, y.1)) = xs.flatMap fun x =>
        (List.finRange n).map fun tpRank => (x.name, (tpRank.val : Int)) := by
      rw [allShards, List.map_flatMap]
      refine List.flatMap_congr fun x _ => ?_
      rw [SplitTensor.shards, List.map_map]
      rfl
    rw [hkeys, List.nodup_flatMap]
    constructor
    · intro x _
      refine (List.nodup_finRange n).map fun tpRank tpRank' heq => Fin.ext ?_
      exact Int.ofNat.inj (Prod.mk.inj heq).2
    · refine (List.pairwise_map.mp hnames).imp fun hne y hy hy' => hne ?_
      obtain ⟨tpRank, -, rfl⟩ := List.mem_map.mp hy
      obtain ⟨tpRank', -, heq⟩ := List.mem_map.mp hy'
      exact (Prod.mk.inj heq).1.symm
  agree := by
    intro y hy z hz hname
    obtain ⟨x, hx, hy⟩ := List.mem_flatMap.mp hy
    obtain ⟨x', hx', hz⟩ := List.mem_flatMap.mp hz
    obtain ⟨tpRank, rfl⟩ := SplitTensor.mem_shards hy
    obtain ⟨tpRank', rfl⟩ := SplitTensor.mem_shards hz
    obtain rfl := List.inj_on_of_nodup_map hnames hx hx' hname
    exact ⟨rfl, rfl, agreeOutside_refl _ _⟩

variable {other : List ByteTensor → Int → Except LoadError ByteTensor} {disk : Disk ByteTensor}
  {files : List String} {items : List (Int × Shard ByteTensor)}

/-- What is found of a name are the parts of the tensor of that name. -/
theorem shards_of_name (hnames : (xs.map SplitTensor.name).Nodup)
    (hperm : items.Perm (allShards xs)) {name : String} {first : Int × Shard ByteTensor}
    (hfirst : first ∈ shardsOf name items) :
    ∃ x ∈ xs, x.name = name ∧ first ∈ x.shards ∧ (shardsOf name items).Perm x.shards := by
  obtain ⟨hmem, hname⟩ := mem_shardsOf.mp hfirst
  obtain ⟨x, hx, hshard⟩ := List.mem_flatMap.mp (hperm.mem_iff.mp hmem)
  obtain ⟨tpRank, rfl⟩ := SplitTensor.mem_shards hshard
  obtain rfl : x.name = name := hname
  refine ⟨x, hx, rfl, hshard, ?_⟩
  rw [← shardsOf_allShards hnames hx]
  exact hperm.filter _

/-- Files with the parts of all ranks are loaded as the tensors. -/
theorem loadCheckpoint_allShards (hn : 0 < n) (hnames : (xs.map SplitTensor.name).Nodup)
    (hitems : loadShards disk files = .ok items) (hperm : items.Perm (allShards xs)) :
    ∃ params, loadCheckpoint (byteTorch other) disk files = .ok params ∧
      ∀ name tensor, (name, tensor) ∈ params ↔
        ∃ x ∈ xs, x.name = name ∧ x.tensor = tensor := by
  have hconsistent : Consistent (byteTorch other) items :=
    (consistent_allShards other hnames).perm hperm.symm
  have hregular : AllRegular (byteTorch other) items := by
    intro name first hfirst
    obtain ⟨x, -, -, hshard, hshards⟩ := shards_of_name hnames hperm (List.mem_of_head? hfirst)
    obtain ⟨tpRank, rfl⟩ := SplitTensor.mem_shards hshard
    exact (SplitTensor.regular_shards other hn x).perm hshards.symm
  have hfits : AllFit (byteTorch other) items := by
    intro name first hfirst
    obtain ⟨x, -, -, hshard, hshards⟩ := shards_of_name hnames hperm (List.mem_of_head? hfirst)
    have hfit := (SplitTensor.fits_shards other hshard).perm hshards.symm
    obtain ⟨tpRank, rfl⟩ := SplitTensor.mem_shards hshard
    exact hfit
  obtain ⟨params, hparams⟩ := (exists_loadCheckpoint_iff hitems hconsistent).mpr ⟨hregular, hfits⟩
  refine ⟨params, hparams, fun name tensor => ?_⟩
  rw [mem_loadCheckpoint_iff hitems hconsistent hparams]
  constructor
  · rintro ⟨first, hfirst, hconcat⟩
    obtain ⟨x, hx, rfl, hshard, hshards⟩ := shards_of_name hnames hperm hfirst
    refine ⟨x, hx, rfl, ?_⟩
    have hdistinct := (hconsistent.ofParameter hfirst).distinct
    have htensor := SplitTensor.concatenation_shards other hn x
    obtain ⟨tpRank, rfl⟩ := SplitTensor.mem_shards hshard
    exact htensor.unique (hconcat.perm hshards hdistinct)
  · rintro ⟨x, hx, rfl, rfl⟩
    have hshards : (shardsOf x.name items).Perm x.shards := by
      rw [← shardsOf_allShards hnames hx]
      exact hperm.filter _
    have hfirst : (((0 : Nat) : Int), x.shard ⟨0, hn⟩) ∈ shardsOf x.name items :=
      hshards.mem_iff.mpr (List.mem_map.mpr ⟨⟨0, hn⟩, List.mem_finRange _, rfl⟩)
    refine ⟨_, hfirst, ?_⟩
    have hdistinct := (hconsistent.ofParameter hfirst).distinct
    exact (SplitTensor.concatenation_shards other hn x).perm hshards.symm
      ((hshards.map Prod.fst).nodup_iff.mp hdistinct)

end Checkpoint

/-! ## The files -/

/-- The files of one layer, or of one expert parallel rank's part of it: one for each tensor
parallel rank. -/
structure FileGroup (n : Nat) where
  /-- with the slash behind it -/
  directory : String
  layer : String
  ep : Option String
  tensors : List (SplitTensor n)
  directory_slash : directory = "" ∨ ∃ parent, directory = parent ++ "/"
  layer_plain : '.' ∉ layer.toList ∧ '/' ∉ layer.toList
  ep_plain : ∀ text ∈ ep, '/' ∉ text.toList

namespace FileGroup

variable {n : Nat} (group : FileGroup n)

/-- What stands behind the rank in a name. -/
def suffix : String :=
  match group.ep with
  | none => "npy"
  | some text => text ++ ".npy"

/-- `model.{layer}.{tp}[.{ep}].npy`. -/
def fileName (tpRank : Nat) : String :=
  "model." ++ group.layer ++ "." ++ toString tpRank ++ "." ++ group.suffix

def path (tpRank : Nat) : String := group.directory ++ group.fileName tpRank

theorem toList_fileName (tpRank : Nat) : (group.fileName tpRank).toList =
    "model".toList ++ '.' :: (group.layer.toList ++ '.' ::
      ((toString tpRank).toList ++ '.' :: group.suffix.toList)) := by
  have hmodel : "model.".toList = "model".toList ++ ['.'] := rfl
  have hdot : ".".toList = ['.'] := rfl
  simp only [fileName, String.toList_append, hmodel, hdot, List.append_assoc, List.cons_append,
    List.nil_append]

theorem slash_notMem_fileName (tpRank : Nat) : '/' ∉ (group.fileName tpRank).toList := by
  have hsuffix : '/' ∉ group.suffix.toList := by
    unfold suffix
    cases hep : group.ep with
    | none => simp
    | some text =>
        have hplain := group.ep_plain text hep
        simpa using hplain
  have hdigits : '/' ∉ (toString tpRank).toList := fun hmem => by
    cases isDigit_of_mem_toString hmem
  rw [toList_fileName]
  simp only [List.mem_append, List.mem_cons, not_or]
  exact ⟨by simp, by simp, group.layer_plain.2, by simp, hdigits, by simp, hsuffix⟩

theorem basename_path (tpRank : Nat) :
    basename (group.path tpRank) = (group.fileName tpRank).toList := by
  have hname := List.splitOn_eq_singleton (group.slash_notMem_fileName tpRank)
  rw [basename, path, String.toList_append, Text.split]
  rcases group.directory_slash with hempty | ⟨parent, hparent⟩
  · rw [hempty, String.toList_empty, List.nil_append, hname]
    rfl
  · have hslash : group.directory.toList = parent.toList ++ ['/'] := by
      rw [hparent, String.toList_append]
      rfl
    rw [hslash, List.append_assoc, List.singleton_append, List.splitOn_append_cons_self, hname,
      List.getLast?_concat, Option.getD_some]

/-- The rank is read off the name. -/
theorem tpRankOf_path (tpRank : Nat) : tpRankOf (group.path tpRank) = .ok tpRank := by
  have hmodel : '.' ∉ "model".toList := by simp
  have hdigits : '.' ∉ (toString tpRank).toList := fun hmem => by
    cases isDigit_of_mem_toString hmem
  obtain ⟨last, rest, hrest⟩ := List.exists_cons_of_ne_nil
    (List.splitOn_ne_nil '.' group.suffix.toList)
  have hsplit : Text.split '.' (basename (group.path tpRank)) =
      "model".toList :: group.layer.toList :: (toString tpRank).toList :: last :: rest := by
    rw [basename_path, toList_fileName, Text.split,
      List.splitOn_append_cons_self_of_not_mem hmodel,
      List.splitOn_append_cons_self_of_not_mem group.layer_plain.1,
      List.splitOn_append_cons_self_of_not_mem hdigits, hrest]
  unfold tpRankOf
  simp only [hsplit, List.length_cons]
  rw [if_pos (by omega)]
  simp only [List.getElem?_cons_succ, List.getElem?_cons_zero, Option.getD_some,
    Text.toInt?_toString]

theorem npy_isSuffixOf_path (tpRank : Nat) :
    ".npy".toList.isSuffixOf (group.path tpRank).toList = true := by
  have hnpy : ".npy".toList <:+ '.' :: group.suffix.toList := by
    unfold suffix
    cases group.ep with
    | none => exact List.suffix_refl _
    | some text =>
        rw [String.toList_append]
        exact (List.suffix_append text.toList _).trans (List.suffix_cons _ _)
  rw [List.isSuffixOf_iff_suffix, path, String.toList_append, toList_fileName]
  refine hnpy.trans ?_
  refine List.IsSuffix.trans ?_ (List.suffix_append _ _)
  refine List.IsSuffix.trans ?_ (List.suffix_append _ _)
  refine List.IsSuffix.trans ?_ (List.suffix_cons _ _)
  refine List.IsSuffix.trans ?_ (List.suffix_append _ _)
  refine List.IsSuffix.trans ?_ (List.suffix_cons _ _)
  exact List.suffix_append _ _

end FileGroup

/-! ## What is loaded -/

section Loading

variable {n : Nat} {δ : Type} {lib : ArrayLibraries δ} {disk : ArrayDisk}
  {groups : List (FileGroup n)}

/-- All files: a group, and a rank of it. -/
def allFiles (groups : List (FileGroup n)) : List (FileGroup n × Fin n) :=
  groups.flatMap fun group => (List.finRange n).map fun tpRank => (group, tpRank)

/-- The files on the disk hold the parts of these tensors, and no name is used twice. -/
structure Exported (lib : ArrayLibraries δ) (disk : ArrayDisk) (groups : List (FileGroup n)) :
    Prop where
  files : ∀ group ∈ groups, ∀ tpRank : Fin n,
    ∃ (metas : List FileMeta) (records : List (ArrayRecord lib)),
      disk.pickled (group.path tpRank ++ ".meta") = .ok metas ∧
        disk.contents (group.path tpRank) = .ok (records.flatMap ArrayRecord.bytes) ∧
          AllGive metas (records.map ArrayRecord.array) (group.tensors.map fun x => x.shard tpRank)
  names_nodup : ((groups.flatMap FileGroup.tensors).map SplitTensor.name).Nodup

/-- The reader of array files, beside any reader of safetensors files. -/
def readers (lib : ArrayLibraries δ) (disk : ArrayDisk)
    (safetensors : String → Except LoadError (List (String × ByteTensor)))
    (metaText : String → ByteTensor → String) : Disk ByteTensor where
  fastNpLoad := fastNpLoad lib disk
  safetensors := safetensors
  metaText := metaText

/-- A dictionary of entries with different keys has them all. -/
theorem dictOf_of_nodup {shards : List (Shard ByteTensor)}
    (h : (shards.map Shard.name).Nodup) : dictOf shards = shards := by
  induction shards using List.reverseRecOn with
  | nil => rfl
  | append_singleton shards shard ih =>
      rw [List.map_append, List.nodup_append] at h
      obtain ⟨hbefore, -, hdisjoint⟩ := h
      have hnew : shard.name ∉ shards.map Shard.name := fun hmem =>
        hdisjoint _ hmem _ (List.mem_singleton_self _) rfl
      rw [dictOf, List.foldl_append, ← dictOf, ih hbefore]
      exact setItem_of_notMem hnew

variable {safetensors : String → Except LoadError (List (String × ByteTensor))}
  {metaText : String → ByteTensor → String}

/-- A file is loaded as its rank's parts. -/
theorem loadCheckpointFile_path (h : Exported lib disk groups) {group : FileGroup n}
    (hgroup : group ∈ groups) (tpRank : Fin n) :
    loadCheckpointFile (readers lib disk safetensors metaText) (group.path tpRank) =
      .ok ((tpRank.val : Int), group.tensors.map fun x => x.shard tpRank) := by
  obtain ⟨metas, records, hmetas, hdata, hgive⟩ := h.files group hgroup tpRank
  have hread := fastNpLoad_ok hmetas hdata hgive
  have hnames : ((group.tensors.map fun x => x.shard tpRank).map Shard.name).Nodup := by
    rw [List.map_map]
    have hall := h.names_nodup
    rw [List.map_flatMap, List.nodup_flatMap] at hall
    exact hall.1 group hgroup
  rw [dictOf_of_nodup hnames] at hread
  rw [loadCheckpointFile, if_pos (group.npy_isSuffixOf_path tpRank)]
  exact bind_eq_ok.mpr ⟨_, group.tpRankOf_path tpRank, bind_eq_ok.mpr ⟨_, hread, rfl⟩⟩

/-- All files together have the parts of all ranks. -/
theorem loadShards_allFiles (h : Exported lib disk groups) :
    ∃ items, loadShards (readers lib disk safetensors metaText)
        ((allFiles groups).map fun file => file.1.path file.2) = .ok items ∧
      items.Perm (allShards (groups.flatMap FileGroup.tensors)) := by
  let loaded := (allFiles groups).map fun file =>
    ((file.2.val : Int), file.1.tensors.map fun x => x.shard file.2)
  have hloaded : ((allFiles groups).map fun file => file.1.path file.2).mapM
      (loadCheckpointFile (readers lib disk safetensors metaText)) = .ok loaded := by
    rw [List.mapM_map]
    refine mapM_eq_ok fun file hfile => ?_
    obtain ⟨group, hgroup, hmem⟩ := List.mem_flatMap.mp hfile
    obtain ⟨tpRank, -, rfl⟩ := List.mem_map.mp hmem
    exact loadCheckpointFile_path h hgroup tpRank
  refine ⟨_, bind_eq_ok.mpr ⟨loaded, hloaded, rfl⟩, ?_⟩
  have hparts : (loaded.flatMap fun x => x.2.map fun shard => (x.1, shard)) =
      groups.flatMap fun group => (List.finRange n).flatMap fun tpRank =>
        group.tensors.map fun x => ((tpRank.val : Int), x.shard tpRank) := by
    rw [List.flatMap_map, allFiles, List.flatMap_assoc]
    refine List.flatMap_congr fun group _ => ?_
    rw [List.flatMap_map]
    exact List.flatMap_congr fun tpRank _ => List.map_map
  change (loaded.flatMap fun x => x.2.map fun shard => (x.1, shard)).Perm _
  rw [hparts, allShards, List.flatMap_assoc]
  exact List.Perm.flatMap_left groups fun group _ => flatMap_map_perm
    (fun (x : SplitTensor n) (tpRank : Fin n) => ((tpRank.val : Int), x.shard tpRank)) _ _

/-- **A checkpoint cut into array files is put together again.**  Every rank's part of every
tensor is in the rank's file of its group, as an array that its meta describes.  The files
are loaded, in any order, as the tensors that they were cut from, byte for byte, and as
nothing else. -/
theorem array_files_put_together (other : List ByteTensor → Int → Except LoadError ByteTensor)
    (hn : 0 < n) (h : Exported lib disk groups) {files : List String}
    (hfiles : ((allFiles groups).map fun file => file.1.path file.2).Perm files) :
    ∃ params, loadCheckpoint (byteTorch other) (readers lib disk safetensors metaText) files =
        .ok params ∧
      ∀ name tensor, (name, tensor) ∈ params ↔
        ∃ group ∈ groups, ∃ x ∈ group.tensors, x.name = name ∧ x.tensor = tensor := by
  obtain ⟨items, hitems, hperm⟩ := @loadShards_allFiles _ _ _ _ _ safetensors metaText h
  obtain ⟨items', hitems', hsame⟩ := loadShards_perm hfiles hitems
  obtain ⟨params, hparams, hall⟩ := @loadCheckpoint_allShards _ _ other _ _ _ hn h.names_nodup
    hitems' (hsame.symm.trans hperm)
  refine ⟨params, hparams, fun name tensor => (hall name tensor).trans ?_⟩
  constructor
  · rintro ⟨x, hx, hname, htensor⟩
    obtain ⟨group, hgroup, hmem⟩ := List.mem_flatMap.mp hx
    exact ⟨group, hgroup, x, hmem, hname, htensor⟩
  · rintro ⟨group, hgroup, x, hx, hname, htensor⟩
    exact ⟨x, List.mem_flatMap.mpr ⟨group, hgroup, hx⟩, hname, htensor⟩

end Loading

/-- A matrix of bytes, cut in its second dimension. -/
def halvedTensor : SplitTensor 2 where
  name := "w"
  tensor := ⟨.uint8, [3, 2], [1, 2, 3, 4, 5, 6], rfl⟩
  tpConcatDim := 1
  divides := fun _ => ⟨1, rfl, Nat.dvd_refl 2⟩
  metaText := fun _ => ""

/-- The matrix is alone in the files of its layer. -/
def halvedGroup : FileGroup 2 where
  directory := ""
  layer := "0"
  ep := none
  tensors := [halvedTensor]
  directory_slash := .inl rfl
  layer_plain := by simp
  ep_plain := by simp

/-- Libraries that know one header, that of an array of the halves' shape. -/
def halvesOnly : ArrayLibraries DType where
  itemsize := DType.itemsize
  readText text :=
    if text = [0] then .ok (halvedTensor.partShape, false, .uint8)
    else .error (.raised (.valueError "Cannot parse header"))
  magicRaises _ := .raised (.valueError "the magic string is not correct")
  mappable _ := .ok ()
  fromNumpy := .ok
  itemsize_fromNumpy := fun h => congrArg DType.itemsize (Except.ok.inj h).symm
  viewDTypeRaises _ _ := .raised (.runtimeError "view")
  viewShapeRaises _ _ := .raised (.runtimeError "shape")

def halfRecord (tpRank : Fin 2) : ArrayRecord halvesOnly where
  version := .one
  text := [0]
  isFortran := false
  array := ⟨.uint8, halvedTensor.partShape, halvedTensor.partBytes tpRank,
    (halvedTensor.part tpRank).length_bytes⟩
  fits := by decide
  reads := by simp [halvesOnly]
  mappable := rfl

def halfMeta : FileMeta where
  key := "w"
  dtype := .uint8
  shape := halvedTensor.partShape
  isTensor := true
  tpConcatDim := 1
  shapeIsSize := true
  text := ""

def halvesDisk : ArrayDisk where
  pickled _ := .ok [halfMeta]
  contents filePath :=
    if filePath = halvedGroup.path 0 then .ok (halfRecord ⟨0, Nat.two_pos⟩).bytes
    else .ok (halfRecord ⟨1, Nat.one_lt_two⟩).bytes

theorem exported_halves : Exported halvesOnly halvesDisk [halvedGroup] where
  files := by
    intro group hgroup tpRank
    obtain rfl := List.mem_singleton.mp hgroup
    refine ⟨[halfMeta], [halfRecord tpRank], rfl, ?_, rfl, .cons ?_ .nil⟩
    · rw [List.flatMap_singleton]
      change (if halvedGroup.path tpRank = halvedGroup.path 0 then .ok (halfRecord 0).bytes
        else .ok (halfRecord 1).bytes) = Except.ok (halfRecord tpRank).bytes
      rcases Fin.exists_fin_two.mp ⟨tpRank, rfl⟩ with rfl | rfl
      · exact if_pos rfl
      · refine if_neg fun heq => ?_
        have hrank := (halvedGroup.tpRankOf_path 1).symm.trans
          ((congrArg tpRankOf heq).trans (halvedGroup.tpRankOf_path 0))
        cases hrank
    · have hshape : halfMeta.shape ≠ [] := by decide
      exact ⟨rfl, hshape, ⟨.uint8, rfl, .inl rfl⟩, rfl, rfl, rfl, rfl, rfl, rfl, rfl⟩
  names_nodup := List.nodup_singleton _

/-- The second rank's file comes first. -/
theorem array_files_put_together_halves :
    ∃ params, loadCheckpoint (byteTorch fun _ _ => .error (.raised (.runtimeError "torch.cat")))
        (readers halvesOnly halvesDisk (fun _ => .ok []) fun _ _ => "")
        ((allFiles [halvedGroup]).map fun file => file.1.path file.2).reverse = .ok params ∧
      ("w", halvedTensor.tensor) ∈ params := by
  obtain ⟨params, hparams, hall⟩ := array_files_put_together
    (fun _ _ => .error (.raised (.runtimeError "torch.cat"))) (by decide) exported_halves
    (List.reverse_perm _).symm
  refine ⟨params, hparams, (hall _ _).mpr ?_⟩
  exact ⟨halvedGroup, List.mem_singleton_self _, halvedTensor, List.mem_singleton_self _, rfl, rfl⟩

end CheckpointEngine.Registry.TensorParallel
