/-
  `Registry.FileOrder`: when `_load_checkpoint` does not depend on the order of the files.

  The shape that the assertions compare with is made of the shard seen first, times the
  number of ranks; all else that decides the outcome is the same in every order.
-/
import CheckpointEngine.Registry.TensorParallel

set_option autoImplicit false

namespace CheckpointEngine.Registry.TensorParallel

open CheckpointEngine.Foundation

variable {Tensor : Type}

/-- The dimension that shards are concatenated along; there is none for -1. -/
def concatAxis (dim : Int) (shape : TorchSize) : Option Nat :=
  if dim = -1 then none else axis dim shape.length

/-- Shards of one parameter, of different ranks, agree on dtype, `tp_concat_dim` and the
dimensions that are not concatenated. -/
structure ConsistentShards (torch : Torch Tensor) (dim : Int)
    (shards : List (Int × Shard Tensor)) : Prop where
  distinct : (shards.map Prod.fst).Nodup
  concatDim : ∀ x ∈ shards, x.2.tpConcatDim = dim
  dtype : ∀ x ∈ shards, ∀ y ∈ shards, torch.dtype x.2.weight = torch.dtype y.2.weight
  shape : ∀ x ∈ shards, ∀ y ∈ shards,
    AgreeOutside (concatAxis dim (torch.shape y.2.weight)) (torch.shape x.2.weight)
      (torch.shape y.2.weight)

/-- Each pair of a parameter and a rank occurs once, and the shards of each parameter
agree. -/
structure Consistent (torch : Torch Tensor) (items : List (Int × Shard Tensor)) : Prop where
  distinct : (items.map fun x => (x.2.name, x.1)).Nodup
  agree : ∀ x ∈ items, ∀ y ∈ items, x.2.name = y.2.name →
    torch.dtype x.2.weight = torch.dtype y.2.weight ∧ x.2.tpConcatDim = y.2.tpConcatDim ∧
      AgreeOutside (concatAxis y.2.tpConcatDim (torch.shape y.2.weight))
        (torch.shape x.2.weight) (torch.shape y.2.weight)

/-- Shards by increasing rank. -/
def byRank (shards : List (Int × Shard Tensor)) : List (Int × Shard Tensor) :=
  shards.insertionSort fun x y => x.1 ≤ y.1

/-- The concatenation of the shards by increasing rank, or the shard of the lowest rank. -/
def Concatenation (torch : Torch Tensor) (dim : Int) (shards : List (Int × Shard Tensor))
    (parameter : Tensor) : Prop :=
  match (byRank shards).map fun x => x.2.weight with
  | [] => False
  | first :: rest =>
      if dim = -1 ∨ rest = [] then parameter = first
      else torch.cat (first :: rest) dim = .ok parameter

/-- What the code requires of the shards of a parameter in any order: a dtype of torch,
and with a dimension that it exists and the ranks are as many as the highest one says. -/
def Regular (torch : Torch Tensor) (dim : Int) (shards : List (Int × Shard Tensor)) : Prop :=
  (∀ x ∈ shards, (torch.dtype x.2.weight).isSome) ∧
    (dim ≠ -1 → (∀ x ∈ shards, (axis dim (torch.shape x.2.weight).length).isSome) ∧
      tpSize dim shards = shards.length)

/-- What the code requires of the shard seen first: a `torch.Size`, and with a dimension
that its extent times the number of shards is the extent of all. -/
def Fits (torch : Torch Tensor) (dim : Int) (shards : List (Int × Shard Tensor))
    (first : Int × Shard Tensor) : Prop :=
  first.2.shapeIsSize ∧
    (dim ≠ -1 → ∀ k, axis dim (torch.shape first.2.weight).length = some k →
      extent k (torch.shape first.2.weight) * shards.length =
        (shards.map fun x => extent k (torch.shape x.2.weight)).sum)

/-! ## One parameter -/

theorem weightsOf_eq {shards : List (Int × Shard Tensor)} (h : (shards.map Prod.fst).Nodup) :
    weightsOf shards = shards.map fun x => (x.1, x.2.weight) := by
  induction shards using List.reverseRecOn with
  | nil => rfl
  | append_singleton shards x ih =>
      rw [List.map_append, List.nodup_append] at h
      obtain ⟨hbefore, -, hdisjoint⟩ := h
      have hnew : x.1 ∉ (shards.map fun x => (x.1, x.2.weight)).map Prod.fst := by
        rw [List.map_map]
        intro hmem
        exact hdisjoint x.1 hmem x.1 (List.mem_singleton_self _) rfl
      rw [weightsOf, List.foldl_append, ← weightsOf, ih hbefore, List.map_append]
      exact setItem_of_notMem hnew

theorem sorted_weights {shards : List (Int × Shard Tensor)} (h : (shards.map Prod.fst).Nodup) :
    ((weightsOf shards).insertionSort fun x y => x.1 ≤ y.1).map Prod.snd =
      (byRank shards).map fun x => x.2.weight := by
  have hsort := List.map_insertionSort (r := fun x y : Int × Shard Tensor => x.1 ≤ y.1)
    (s := fun x y : Int × Tensor => x.1 ≤ y.1) (fun x => (x.1, x.2.weight)) shards
    fun _ _ _ _ => Iff.rfl
  rw [weightsOf_eq h, ← hsort, List.map_map]
  rfl

/-- In which order shards of different ranks are given does not matter when they are
sorted. -/
theorem byRank_perm {shards shards' : List (Int × Shard Tensor)}
    (hperm : shards.Perm shards') (h : (shards.map Prod.fst).Nodup) :
    byRank shards = byRank shards' := by
  have hsorted := (List.perm_insertionSort (fun x y : Int × Shard Tensor => x.1 ≤ y.1) shards)
  have hsorted' := (List.perm_insertionSort (fun x y : Int × Shard Tensor => x.1 ≤ y.1) shards')
  have hequal : ∀ x y, x ∈ byRank shards → y ∈ byRank shards' → x.1 ≤ y.1 → y.1 ≤ x.1 →
      x = y := by
    intro x y hx hy hle hge
    have hy' : y ∈ shards := hperm.mem_iff.mpr (hsorted'.mem_iff.mp hy)
    exact List.inj_on_of_nodup_map h (hsorted.mem_iff.mp hx) hy' (Int.le_antisymm hle hge)
  exact List.Perm.eq_of_pairwise hequal (List.pairwise_insertionSort _ _)
    (List.pairwise_insertionSort _ _) (hsorted.trans (hperm.trans hsorted'.symm))

section Parameter

variable {torch : Torch Tensor} {dim : Int} {shards : List (Int × Shard Tensor)}
  {parameter : Tensor}

theorem length_byRank (shards : List (Int × Shard Tensor)) :
    ((byRank shards).map fun x => x.2.weight).length = shards.length := by
  rw [List.length_map, byRank, List.length_insertionSort]

theorem concatTpWeights_eq_ok_iff (torch : Torch Tensor) (dim : Int) (parameter : Tensor)
    (hne : shards ≠ []) (size : Int) :
    concatTpWeights torch ((byRank shards).map fun x => x.2.weight) dim size = .ok parameter ↔
      (dim ≠ -1 → size = shards.length) ∧ Concatenation torch dim shards parameter := by
  rw [Concatenation, ← length_byRank shards]
  cases hweights : (byRank shards).map fun x => x.2.weight with
  | nil =>
      have hlength := length_byRank shards
      rw [hweights] at hlength
      exact absurd (List.length_eq_zero_iff.mp hlength.symm) hne
  | cons first rest =>
      rw [concatTpWeights]
      by_cases hdim : dim = -1
      · simp only [Except.ok.injEq, hdim, ne_eq, not_true_eq_false, false_implies,
          true_and, true_or, if_true, eq_comm]
      · rw [if_neg hdim]
        by_cases hsize : size = (first :: rest).length
        · have hone : (first :: rest).length = 1 ↔ rest = [] := by simp
          simp only [hsize, ne_eq, not_true_eq_false, if_false, hone, hdim, false_or,
            implies_true, true_and]
          split
          · rw [Except.ok.injEq, eq_comm]
          · exact Iff.rfl
        · rw [if_pos hsize]
          refine iff_of_false (fun h => nomatch h) fun h => hsize (h.1 hdim)

theorem assertMeta_eq_ok_iff {shard : Shard Tensor} {parameterMeta : ParameterMeta} :
    assertMeta torch shard = .ok parameterMeta ↔
      ∃ dtype, torch.dtype shard.weight = some dtype ∧ shard.shapeIsSize ∧
        parameterMeta = ⟨shard.name, dtype, torch.shape shard.weight,
          alignSize dtype (torch.shape shard.weight)⟩ := by
  rw [assertMeta]
  cases hdtype : torch.dtype shard.weight with
  | none => exact iff_of_false (fun h => nomatch h) fun ⟨_, h, _⟩ => nomatch h
  | some dtype =>
      simp only
      split
      · rename_i hsize
        constructor
        · intro h
          exact ⟨dtype, rfl, hsize, (Except.ok.inj h).symm⟩
        · rintro ⟨_, hsome, -, rfl⟩
          rw [Option.some.inj hsome]
      · rename_i hsize
        exact iff_of_false (fun h => nomatch h) fun ⟨_, _, h, _⟩ => hsize h

/-- The extents of the shards, by rank or in any order. -/
theorem sum_extents_byRank (torch : Torch Tensor) (k : Nat)
    (shards : List (Int × Shard Tensor)) :
    (((byRank shards).map fun x => x.2.weight).map fun t => extent k (torch.shape t)).sum =
      (shards.map fun x => extent k (torch.shape x.2.weight)).sum := by
  rw [List.map_map]
  exact ((List.perm_insertionSort _ shards).map _).sum_nat

theorem set_extent (k : Nat) (shape : TorchSize) : shape.set k (extent k shape) = shape := by
  refine List.ext_getElem? fun i => ?_
  rw [List.getElem?_set]
  split
  · rename_i heq
    subst heq
    split
    · rename_i hlt
      rw [extent, List.getElem?_eq_getElem hlt, Option.getD_some]
    · rename_i hge
      exact (List.getElem?_eq_none (Nat.le_of_not_lt hge)).symm
  · rfl

theorem mem_weights_byRank {t : Tensor} :
    t ∈ ((byRank shards).map fun x => x.2.weight) ↔ ∃ x ∈ shards, x.2.weight = t := by
  rw [List.mem_map]
  simp only [byRank, List.mem_insertionSort]

/-- What there is to be concatenated fits `torch.cat`. -/
theorem ConsistentShards.cat_ok (h : ConsistentShards torch dim shards) (hdim : dim ≠ -1)
    {first : Int × Shard Tensor} (hfirst : first ∈ shards) {type : DType} {k : Nat}
    (htype : torch.dtype first.2.weight = some type)
    (hk : axis dim (torch.shape first.2.weight).length = some k) :
    ∃ t, torch.cat ((byRank shards).map fun x => x.2.weight) dim = .ok t ∧
      torch.dtype t = some type ∧ torch.shape t = (torch.shape first.2.weight).set k
        (shards.map fun x => extent k (torch.shape x.2.weight)).sum := by
  rw [← sum_extents_byRank torch k shards]
  refine torch.cat_ok ?_ hk ?_
  · intro hnil
    have hmem := mem_weights_byRank.mpr ⟨first, hfirst, rfl⟩
    rw [hnil] at hmem
    cases hmem
  · intro t ht
    obtain ⟨x, hx, rfl⟩ := mem_weights_byRank.mp ht
    have hagree := h.shape x hx first hfirst
    rw [concatAxis, if_neg hdim, hk] at hagree
    exact ⟨(h.dtype x hx first hfirst).trans htype, hagree⟩

/-- A concatenation has the dtype of the shards, and the extent of all of them. -/
theorem ConsistentShards.concatenation_shape (h : ConsistentShards torch dim shards)
    (hdim : dim ≠ -1) {first : Int × Shard Tensor} (hfirst : first ∈ shards) {type : DType}
    {k : Nat} (htype : torch.dtype first.2.weight = some type)
    (hk : axis dim (torch.shape first.2.weight).length = some k)
    (hparameter : Concatenation torch dim shards parameter) :
    torch.dtype parameter = some type ∧ torch.shape parameter =
      (torch.shape first.2.weight).set k
        (shards.map fun x => extent k (torch.shape x.2.weight)).sum := by
  obtain ⟨t, hcat, hdtype, hshape⟩ := h.cat_ok hdim hfirst htype hk
  rw [Concatenation] at hparameter
  have hlength := length_byRank shards
  cases hweights : (byRank shards).map fun x => x.2.weight with
  | nil =>
      rw [hweights] at hparameter
      exact hparameter.elim
  | cons lowest rest =>
      rw [hweights] at hparameter hlength hcat
      simp only [hdim, false_or] at hparameter
      split at hparameter
      · -- the only shard
        rename_i hrest
        subst hrest
        obtain ⟨only, rfl⟩ := List.length_eq_one_iff.mp hlength.symm
        obtain rfl := List.mem_singleton.mp hfirst
        have hlowest : lowest = first.2.weight := by
          have hmem : lowest ∈ (byRank [first]).map fun x => x.2.weight := by
            rw [hweights]
            exact List.mem_singleton_self lowest
          obtain ⟨x, hx, rfl⟩ := mem_weights_byRank.mp hmem
          rw [List.mem_singleton.mp hx]
        rw [hparameter, hlowest]
        refine ⟨htype, ?_⟩
        rw [List.map_singleton, List.sum_singleton, set_extent]
      · obtain rfl := Except.ok.inj (hcat.symm.trans hparameter)
        exact ⟨hdtype, hshape⟩

/-- Shards that agree can be concatenated. -/
theorem ConsistentShards.exists_concatenation (h : ConsistentShards torch dim shards)
    (hregular : Regular torch dim shards) (hne : shards ≠ []) :
    ∃ parameter, Concatenation torch dim shards parameter := by
  obtain ⟨first, tail, rfl⟩ := List.exists_cons_of_ne_nil hne
  have hfirst : first ∈ first :: tail := List.mem_cons_self
  simp only [Concatenation]
  cases hweights : (byRank (first :: tail)).map fun x => x.2.weight with
  | nil =>
      have hmem := mem_weights_byRank.mpr ⟨first, hfirst, rfl⟩
      rw [hweights] at hmem
      cases hmem
  | cons lowest rest =>
      by_cases hshared : dim = -1 ∨ rest = []
      · exact ⟨lowest, by simp only [if_pos hshared]⟩
      · have hdim := (not_or.mp hshared).1
        obtain ⟨type, htype⟩ := Option.isSome_iff_exists.mp (hregular.1 first hfirst)
        obtain ⟨k, hk⟩ := Option.isSome_iff_exists.mp ((hregular.2 hdim).1 first hfirst)
        obtain ⟨t, hcat, -⟩ := h.cat_ok hdim hfirst htype hk
        rw [hweights] at hcat
        exact ⟨t, by simpa only [if_neg hshared] using hcat⟩

/-- A lowest-rank shard without a dimension has the dtype and the shape of any other. -/
theorem ConsistentShards.shared_shape (h : ConsistentShards torch (-1) shards)
    {first : Int × Shard Tensor} (hfirst : first ∈ shards)
    (hparameter : Concatenation torch (-1) shards parameter) :
    torch.dtype parameter = torch.dtype first.2.weight ∧
      torch.shape parameter = torch.shape first.2.weight := by
  rw [Concatenation] at hparameter
  cases hweights : (byRank shards).map fun x => x.2.weight with
  | nil =>
      rw [hweights] at hparameter
      exact hparameter.elim
  | cons lowest rest =>
      rw [hweights] at hparameter
      simp only [true_or, if_true] at hparameter
      obtain ⟨x, hx, hlowest⟩ := mem_weights_byRank.mp (hweights ▸ List.mem_cons_self)
      have hagree := h.shape x hx first hfirst
      rw [hparameter, ← hlowest]
      exact ⟨h.dtype x hx first hfirst, List.ext_getElem? fun i => hagree.2 i (fun h => nomatch h)⟩

theorem axis_lt {dim : Int} {ndim k : Nat} (h : axis dim ndim = some k) : k < ndim := by
  rw [axis] at h
  split at h
  · split at h
    · cases h
      omega
    · cases h
  · split at h
    · cases h
      omega
    · cases h

theorem scaleMeta_eq_ok_iff {parameterMeta scaled : ParameterMeta} {size : Int}
    (hdim : dim ≠ -1) :
    scaleMeta parameterMeta ⟨dim, size⟩ = .ok scaled ↔
      ∃ k, axis dim parameterMeta.shape.length = some k ∧
        scaled = { parameterMeta with
          shape := parameterMeta.shape.set k (extent k parameterMeta.shape * size.toNat)
          alignedSize := alignSize parameterMeta.dtype
            (parameterMeta.shape.set k (extent k parameterMeta.shape * size.toNat)) } := by
  rw [scaleMeta, if_pos hdim]
  cases haxis : axis dim parameterMeta.shape.length with
  | none => exact iff_of_false (fun h => nomatch h) fun ⟨_, h, _⟩ => nomatch h
  | some k =>
      constructor
      · intro h
        exact ⟨k, rfl, (Except.ok.inj h).symm⟩
      · rintro ⟨_, heq, rfl⟩
        rw [Option.some.inj heq]

theorem combine_eq_ok_iff {parameterMeta scaled : ParameterMeta} {tpMeta : TPMeta}
    {weights : List (Int × Tensor)} :
    combine torch parameterMeta tpMeta weights = .ok (scaled, parameter) ↔
      scaleMeta parameterMeta tpMeta = .ok scaled ∧
        concatTpWeights torch ((weights.insertionSort fun x y => x.1 ≤ y.1).map Prod.snd)
          tpMeta.concatDim tpMeta.size = .ok parameter := by
  rw [combine, bind_eq_ok]
  constructor
  · rintro ⟨_, hscaled, h⟩
    obtain ⟨_, hparameter, h⟩ := bind_eq_ok.mp h
    cases h
    exact ⟨hscaled, hparameter⟩
  · rintro ⟨hscaled, hparameter⟩
    exact ⟨scaled, hscaled, bind_eq_ok.mpr ⟨parameter, hparameter, rfl⟩⟩

/-- What the code does with the shards of a parameter, step by step. -/
theorem ConsistentShards.yields_iff_steps (h : ConsistentShards torch dim shards)
    {first : Int × Shard Tensor} (hfirst : shards.head? = some first) :
    Yields torch shards parameter ↔
      ∃ dtype scaled, torch.dtype first.2.weight = some dtype ∧ first.2.shapeIsSize ∧
        scaleMeta ⟨first.2.name, dtype, torch.shape first.2.weight,
          alignSize dtype (torch.shape first.2.weight)⟩ ⟨dim, tpSize dim shards⟩ = .ok scaled ∧
        (dim ≠ -1 → tpSize dim shards = shards.length) ∧
        Concatenation torch dim shards parameter ∧
        scaled.shape = torch.shape parameter ∧ some scaled.dtype = torch.dtype parameter := by
  have hmem : first ∈ shards := List.mem_of_head? hfirst
  have hconcat := concatTpWeights_eq_ok_iff torch dim parameter (List.ne_nil_of_mem hmem)
    (tpSize dim shards)
  rw [← sorted_weights h.distinct] at hconcat
  constructor
  · rintro ⟨_, parameterMeta, scaled, hhead, hmeta, hcombine, hcheck⟩
    obtain rfl := Option.some.inj (hfirst.symm.trans hhead)
    obtain ⟨dtype, hdtype, hsize, rfl⟩ := assertMeta_eq_ok_iff.mp hmeta
    rw [combine_eq_ok_iff, h.concatDim first hmem, hconcat] at hcombine
    obtain ⟨hscaled, hranks, hparameter⟩ := hcombine
    exact ⟨dtype, scaled, hdtype, hsize, hscaled, hranks, hparameter, hcheck⟩
  · rintro ⟨dtype, scaled, hdtype, hsize, hscaled, hranks, hparameter, hcheck⟩
    refine ⟨first, _, scaled, hfirst, assertMeta_eq_ok_iff.mpr ⟨dtype, hdtype, hsize, rfl⟩, ?_,
      hcheck⟩
    rw [combine_eq_ok_iff, h.concatDim first hmem, hconcat]
    exact ⟨hscaled, hranks, hparameter⟩

/-- The shards of a parameter are combined when they are regular and the first one fits,
and then to their concatenation. -/
theorem ConsistentShards.yields_iff (h : ConsistentShards torch dim shards)
    {first : Int × Shard Tensor} (hfirst : shards.head? = some first) :
    Yields torch shards parameter ↔
      Regular torch dim shards ∧ Fits torch dim shards first ∧
        Concatenation torch dim shards parameter := by
  have hmem : first ∈ shards := List.mem_of_head? hfirst
  have hdtypes : ∀ {type}, torch.dtype first.2.weight = some type →
      ∀ x ∈ shards, (torch.dtype x.2.weight).isSome := by
    intro type htype x hx
    rw [h.dtype x hx first hmem, htype]
    rfl
  rw [h.yields_iff_steps hfirst]
  by_cases hdim : dim = -1
  · subst hdim
    constructor
    · rintro ⟨type, _, htype, hsize, -, -, hparameter, -⟩
      exact ⟨⟨hdtypes htype, fun hne => absurd rfl hne⟩, ⟨hsize, fun hne => absurd rfl hne⟩,
        hparameter⟩
    · rintro ⟨hregular, hfits, hparameter⟩
      obtain ⟨type, htype⟩ := Option.isSome_iff_exists.mp (hregular.1 first hmem)
      obtain ⟨hdtype, hshape⟩ := h.shared_shape hmem hparameter
      exact ⟨type, _, htype, hfits.1, rfl, fun hne => absurd rfl hne, hparameter, hshape.symm,
        (hdtype.trans htype).symm⟩
  · constructor
    · rintro ⟨type, scaled, htype, hsize, hscaled, hranks, hparameter, hshape, -⟩
      obtain ⟨k, hk, rfl⟩ := (scaleMeta_eq_ok_iff hdim).mp hscaled
      obtain ⟨-, hconcat⟩ := h.concatenation_shape hdim hmem htype hk hparameter
      refine ⟨⟨hdtypes htype, fun _ => ⟨fun x hx => ?_, hranks hdim⟩⟩, ⟨hsize, fun _ k' hk' => ?_⟩,
        hparameter⟩
      · have hlength := (h.shape x hx first hmem).1
        rw [hlength, hk]
        rfl
      · obtain rfl := Option.some.inj (hk.symm.trans hk')
        have hextents := congrArg (extent k) (hshape.trans hconcat)
        have hlt := axis_lt hk
        simpa [extent, List.getElem?_set, hlt, hranks hdim] using hextents
    · rintro ⟨hregular, hfits, hparameter⟩
      obtain ⟨type, htype⟩ := Option.isSome_iff_exists.mp (hregular.1 first hmem)
      obtain ⟨k, hk⟩ := Option.isSome_iff_exists.mp ((hregular.2 hdim).1 first hmem)
      obtain ⟨hdtype, hshape⟩ := h.concatenation_shape hdim hmem htype hk hparameter
      refine ⟨type, _, htype, hfits.1, (scaleMeta_eq_ok_iff hdim).mpr ⟨k, hk, rfl⟩,
        fun _ => (hregular.2 hdim).2, hparameter, ?_, hdtype.symm⟩
      rw [hshape, ← hfits.2 hdim k hk, (hregular.2 hdim).2, Int.toNat_natCast]

end Parameter

/-! ## All orders -/

section Orders

variable {torch : Torch Tensor} {dim : Int} {shards shards' : List (Int × Shard Tensor)}

theorem tpSize_perm (hperm : shards.Perm shards') : tpSize dim shards = tpSize dim shards' := by
  refine hperm.foldl_eq' (fun x _ y _ size => ?_) 1
  by_cases hdim : dim ≠ -1
  · simp only [if_pos hdim, max_right_comm]
  · simp only [if_neg hdim]

theorem Regular.perm (hperm : shards.Perm shards') (h : Regular torch dim shards) :
    Regular torch dim shards' := by
  obtain ⟨hdtype, hdims⟩ := h
  refine ⟨fun x hx => hdtype x (hperm.mem_iff.mpr hx), fun hdim => ?_⟩
  obtain ⟨haxis, hsize⟩ := hdims hdim
  refine ⟨fun x hx => haxis x (hperm.mem_iff.mpr hx), ?_⟩
  rw [← tpSize_perm hperm, ← hperm.length_eq, hsize]

theorem Concatenation.perm {parameter : Tensor} (hperm : shards.Perm shards')
    (hdistinct : (shards.map Prod.fst).Nodup) (h : Concatenation torch dim shards parameter) :
    Concatenation torch dim shards' parameter := by
  rwa [Concatenation, ← byRank_perm hperm hdistinct]

theorem Concatenation.unique {parameter parameter' : Tensor}
    (h : Concatenation torch dim shards parameter)
    (h' : Concatenation torch dim shards parameter') : parameter = parameter' := by
  rw [Concatenation] at h h'
  cases hweights : (byRank shards).map fun x => x.2.weight with
  | nil =>
      rw [hweights] at h
      exact h.elim
  | cons first rest =>
      rw [hweights] at h h'
      by_cases hshared : dim = -1 ∨ rest = []
      · simp only [if_pos hshared] at h h'
        rw [h, h']
      · simp only [if_neg hshared] at h h'
        exact Except.ok.inj (h.symm.trans h')

variable {items items' : List (Int × Shard Tensor)}

theorem Consistent.perm (hperm : items.Perm items') (h : Consistent torch items) :
    Consistent torch items' where
  distinct := (hperm.map _).nodup_iff.mp h.distinct
  agree x hx y hy := h.agree x (hperm.mem_iff.mpr hx) y (hperm.mem_iff.mpr hy)

theorem mem_shardsOf {name : String} {x : Int × Shard Tensor} :
    x ∈ shardsOf name items ↔ x ∈ items ∧ x.2.name = name := by
  rw [shardsOf, List.mem_filter, decide_eq_true_iff]

theorem Consistent.ofParameter (h : Consistent torch items) {name : String}
    {first : Int × Shard Tensor} (hfirst : first ∈ shardsOf name items) :
    ConsistentShards torch first.2.tpConcatDim (shardsOf name items) := by
  have hagree : ∀ x ∈ shardsOf name items, ∀ y ∈ shardsOf name items,
      torch.dtype x.2.weight = torch.dtype y.2.weight ∧ x.2.tpConcatDim = y.2.tpConcatDim ∧
        AgreeOutside (concatAxis y.2.tpConcatDim (torch.shape y.2.weight))
          (torch.shape x.2.weight) (torch.shape y.2.weight) := by
    intro x hx y hy
    obtain ⟨hx, hxname⟩ := mem_shardsOf.mp hx
    obtain ⟨hy, hyname⟩ := mem_shardsOf.mp hy
    exact h.agree x hx y hy (hxname.trans hyname.symm)
  refine ⟨?_, fun x hx => (hagree x hx first hfirst).2.1, fun x hx y hy => (hagree x hx y hy).1,
    fun x hx y hy => ?_⟩
  · refine List.Nodup.of_map (fun rank => (name, rank)) ?_
    have hsame : (shardsOf name items).map (fun x => (x.2.name, x.1)) =
        ((shardsOf name items).map Prod.fst).map fun rank => (name, rank) := by
      rw [List.map_map]
      exact List.map_congr_left fun x hx => by rw [(mem_shardsOf.mp hx).2]; rfl
    rw [← hsame]
    exact h.distinct.sublist (List.filter_sublist.map _)
  · rw [← (hagree y hy first hfirst).2.1]
    exact (hagree x hx y hy).2.2

/-- The shards of all parameters are regular. -/
def AllRegular (torch : Torch Tensor) (items : List (Int × Shard Tensor)) : Prop :=
  ∀ name first, (shardsOf name items).head? = some first →
    Regular torch first.2.tpConcatDim (shardsOf name items)

/-- The shard of each parameter that is seen first fits. -/
def AllFit (torch : Torch Tensor) (items : List (Int × Shard Tensor)) : Prop :=
  ∀ name first, (shardsOf name items).head? = some first →
    Fits torch first.2.tpConcatDim (shardsOf name items) first

theorem AllRegular.perm (hperm : items.Perm items') (hconsistent : Consistent torch items)
    (h : AllRegular torch items) : AllRegular torch items' := by
  intro name first hfirst
  have hshards : (shardsOf name items).Perm (shardsOf name items') := hperm.filter _
  have hmem : first ∈ shardsOf name items := hshards.mem_iff.mpr (List.mem_of_head? hfirst)
  obtain ⟨other, rest, hsplit⟩ := List.exists_cons_of_ne_nil (List.ne_nil_of_mem hmem)
  have hother : (shardsOf name items).head? = some other := by rw [hsplit, List.head?_cons]
  rw [← (hconsistent.ofParameter hmem).concatDim other (List.mem_of_head? hother)]
  exact (h name other hother).perm hshards

theorem Fits.perm {first : Int × Shard Tensor} (hperm : shards.Perm shards')
    (h : Fits torch dim shards first) : Fits torch dim shards' first := by
  obtain ⟨hsize, hextent⟩ := h
  refine ⟨hsize, fun hdim k hk => ?_⟩
  rw [← hperm.length_eq, hextent hdim k hk]
  exact (hperm.map _).sum_nat

/-- Orders that see the same shard of each parameter first fit alike. -/
theorem AllFit.perm (hperm : items.Perm items')
    (hfirsts : ∀ name, (shardsOf name items).head? = (shardsOf name items').head?)
    (h : AllFit torch items) : AllFit torch items' :=
  fun name first hfirst => (h name first ((hfirsts name).trans hfirst)).perm (hperm.filter _)

variable {disk : Disk Tensor} {files files' : List String}

/-- Loading consistent shards succeeds exactly when all are regular and the first ones
fit. -/
theorem exists_loadCheckpoint_iff (hitems : loadShards disk files = .ok items)
    (hconsistent : Consistent torch items) :
    (∃ params, loadCheckpoint torch disk files = .ok params) ↔
      AllRegular torch items ∧ AllFit torch items := by
  constructor
  · rintro ⟨params, h⟩
    obtain ⟨hall, hyields⟩ := mem_loadCheckpoint h hitems
    have hfirsts : ∀ name first, (shardsOf name items).head? = some first →
        Regular torch first.2.tpConcatDim (shardsOf name items) ∧
          Fits torch first.2.tpConcatDim (shardsOf name items) first := by
      intro name first hfirst
      have hmem := List.mem_of_head? hfirst
      obtain ⟨parameter, hparameter⟩ := hall name (List.ne_nil_of_mem hmem)
      obtain ⟨hregular, hfits, -⟩ := ((hconsistent.ofParameter hmem).yields_iff hfirst).mp
        (hyields name parameter hparameter).2
      exact ⟨hregular, hfits⟩
    exact ⟨fun name first hfirst => (hfirsts name first hfirst).1,
      fun name first hfirst => (hfirsts name first hfirst).2⟩
  · rintro ⟨hregular, hfits⟩
    refine exists_loadCheckpoint hitems fun name hne => ?_
    obtain ⟨first, hfirst⟩ := Option.isSome_iff_exists.mp (List.isSome_head?.mpr hne)
    have hshards := hconsistent.ofParameter (List.mem_of_head? hfirst)
    obtain ⟨parameter, hparameter⟩ := hshards.exists_concatenation (hregular name first hfirst) hne
    exact ⟨parameter, (hshards.yields_iff hfirst).mpr
      ⟨hregular name first hfirst, hfits name first hfirst, hparameter⟩⟩

theorem mem_loadCheckpoint_iff (hitems : loadShards disk files = .ok items)
    (hconsistent : Consistent torch items) {params : List (String × Tensor)}
    (h : loadCheckpoint torch disk files = .ok params) {name : String} {parameter : Tensor} :
    (name, parameter) ∈ params ↔
      ∃ first ∈ shardsOf name items,
        Concatenation torch first.2.tpConcatDim (shardsOf name items) parameter := by
  obtain ⟨hall, hyields⟩ := mem_loadCheckpoint h hitems
  have hconcat : ∀ {parameter}, (name, parameter) ∈ params → ∃ first,
      (shardsOf name items).head? = some first ∧
        Concatenation torch first.2.tpConcatDim (shardsOf name items) parameter := by
    intro parameter hparameter
    obtain ⟨hne, hyield⟩ := hyields name parameter hparameter
    obtain ⟨first, hfirst⟩ := Option.isSome_iff_exists.mp (List.isSome_head?.mpr hne)
    have hshards := hconsistent.ofParameter (List.mem_of_head? hfirst)
    exact ⟨first, hfirst, ((hshards.yields_iff hfirst).mp hyield).2.2⟩
  constructor
  · intro hparameter
    obtain ⟨first, hfirst, hparameter⟩ := hconcat hparameter
    exact ⟨first, List.mem_of_head? hfirst, hparameter⟩
  · rintro ⟨first, hfirst, hparameter⟩
    obtain ⟨found, hfound⟩ := hall name (List.ne_nil_of_mem hfirst)
    obtain ⟨other, hother, hfound'⟩ := hconcat hfound
    rw [(hconsistent.ofParameter hfirst).concatDim other (List.mem_of_head? hother)] at hfound'
    rwa [hparameter.unique hfound']

theorem loadShards_perm (hperm : files.Perm files') (hitems : loadShards disk files = .ok items) :
    ∃ items', loadShards disk files' = .ok items' ∧ items.Perm items' := by
  obtain ⟨loaded, hloaded, h⟩ := bind_eq_ok.mp hitems
  cases h
  obtain ⟨loaded', hloaded', hsame⟩ :=
    List.perm_comp_forall₂ hperm.symm (mapM_eq_ok_iff.mp hloaded)
  refine ⟨_, bind_eq_ok.mpr ⟨loaded', mapM_eq_ok_iff.mpr hloaded', rfl⟩, ?_⟩
  exact hsame.symm.flatMap_right _

theorem loadCheckpoint_of_loadShards_error {error : LoadError}
    (h : loadShards disk files = .error error) :
    ∃ e, loadCheckpoint torch disk files = .error e := by
  cases hload : loadCheckpoint torch disk files with
  | error e => exact ⟨e, rfl⟩
  | ok params =>
      obtain ⟨g, hg, -⟩ := bind_eq_ok.mp hload
      obtain ⟨items, hitems, -⟩ := gather_eq_ok_iff.mp hg
      rw [h] at hitems
      cases hitems

theorem error_iff_not_exists {ε α : Type} {result : Except ε α} :
    (∃ e, result = .error e) ↔ ¬ ∃ a, result = .ok a := by
  cases result with
  | error e => exact iff_of_true ⟨e, rfl⟩ fun ⟨_, h⟩ => nomatch h
  | ok a => exact iff_of_false (fun ⟨_, h⟩ => nomatch h) fun h => h ⟨a, rfl⟩

/-- Both orders raise, or both return the same parameters, each the concatenation of its
shards by increasing rank or the shard of the lowest rank. -/
def OrderIndependent (torch : Torch Tensor) (disk : Disk Tensor) (files files' : List String) :
    Prop :=
  ((∃ e, loadCheckpoint torch disk files = .error e) ∧
    ∃ e, loadCheckpoint torch disk files' = .error e) ∨
  ∃ params params' items, loadCheckpoint torch disk files = .ok params ∧
    loadCheckpoint torch disk files' = .ok params' ∧ loadShards disk files = .ok items ∧
    (∀ name parameter, (name, parameter) ∈ params ↔ (name, parameter) ∈ params') ∧
    ∀ name parameter, (name, parameter) ∈ params → ∃ shard ∈ shardsOf name items,
      Concatenation torch shard.2.tpConcatDim (shardsOf name items) parameter

theorem exists_concatenation_perm (hperm : items.Perm items')
    (hconsistent : Consistent torch items) {name : String} {parameter : Tensor}
    (h : ∃ shard ∈ shardsOf name items,
      Concatenation torch shard.2.tpConcatDim (shardsOf name items) parameter) :
    ∃ shard ∈ shardsOf name items',
      Concatenation torch shard.2.tpConcatDim (shardsOf name items') parameter := by
  obtain ⟨shard, hshard, hparameter⟩ := h
  have hshards : (shardsOf name items).Perm (shardsOf name items') := hperm.filter _
  exact ⟨shard, hshards.mem_iff.mp hshard,
    hparameter.perm hshards (hconsistent.ofParameter hshard).distinct⟩

theorem orderIndependent_of_ok (hperm : items.Perm items') (hconsistent : Consistent torch items)
    (hitems : loadShards disk files = .ok items) (hitems' : loadShards disk files' = .ok items')
    {params params' : List (String × Tensor)}
    (h : loadCheckpoint torch disk files = .ok params)
    (h' : loadCheckpoint torch disk files' = .ok params') :
    OrderIndependent torch disk files files' := by
  have hconsistent' := hconsistent.perm hperm
  refine Or.inr ⟨params, params', items, h, h', hitems, fun name parameter => ?_,
    fun name parameter hmem => (mem_loadCheckpoint_iff hitems hconsistent h).mp hmem⟩
  rw [mem_loadCheckpoint_iff hitems hconsistent h, mem_loadCheckpoint_iff hitems' hconsistent' h']
  exact ⟨exists_concatenation_perm hperm hconsistent,
    exists_concatenation_perm hperm.symm hconsistent'⟩

/-- Loading the files in two orders has the same outcome exactly when the shards that are
seen first fit in both or in neither, or some check fails in any order. -/
theorem loadCheckpoint_perm_iff (torch : Torch Tensor) (disk : Disk Tensor)
    (hperm : files.Perm files')
    (hconsistent : ∀ items, loadShards disk files = .ok items → Consistent torch items) :
    OrderIndependent torch disk files files' ↔
      ∀ items items', loadShards disk files = .ok items → loadShards disk files' = .ok items' →
        AllRegular torch items → (AllFit torch items ↔ AllFit torch items') := by
  cases hitems : loadShards disk files with
  | error e =>
      refine iff_of_true (Or.inl ⟨loadCheckpoint_of_loadShards_error hitems, ?_⟩)
        fun _ _ h => nomatch h
      cases hitems' : loadShards disk files' with
      | error e' => exact loadCheckpoint_of_loadShards_error hitems'
      | ok items' =>
          obtain ⟨items, hsome, -⟩ := loadShards_perm hperm.symm hitems'
          cases hitems.symm.trans hsome
  | ok items =>
      have hagree := hconsistent items hitems
      obtain ⟨items', hitems', hshards⟩ := loadShards_perm hperm hitems
      have hexists := exists_loadCheckpoint_iff hitems hagree
      have hexists' := exists_loadCheckpoint_iff hitems' (hagree.perm hshards)
      have hregular : AllRegular torch items ↔ AllRegular torch items' :=
        ⟨fun h => h.perm hshards hagree, fun h => h.perm hshards.symm (hagree.perm hshards)⟩
      constructor
      · rintro hsame _ _ heq heq' hall
        obtain rfl := Except.ok.inj heq
        obtain rfl := Except.ok.inj (hitems'.symm.trans heq')
        obtain ⟨herror, herror'⟩ | ⟨params, params', -, hok, hok', -⟩ := hsame
        · rw [error_iff_not_exists, hexists, and_iff_right hall] at herror
          rw [error_iff_not_exists, hexists', and_iff_right (hregular.mp hall)] at herror'
          exact iff_of_false herror herror'
        · exact iff_of_true (hexists.mp ⟨params, hok⟩).2 (hexists'.mp ⟨params', hok'⟩).2
      · intro hfit
        by_cases hloads : AllRegular torch items ∧ AllFit torch items
        · obtain ⟨params, hok⟩ := hexists.mpr hloads
          obtain ⟨params', hok'⟩ := hexists'.mpr
            ⟨hregular.mp hloads.1, (hfit items items' rfl hitems' hloads.1).mp hloads.2⟩
          exact orderIndependent_of_ok hshards hagree hitems hitems' hok hok'
        · refine Or.inl ⟨error_iff_not_exists.mpr (mt hexists.mp hloads),
            error_iff_not_exists.mpr (mt hexists'.mp fun hloads' => hloads ?_)⟩
          have hall := hregular.mpr hloads'.1
          exact ⟨hall, (hfit items items' rfl hitems' hall).mpr hloads'.2⟩

end Orders

/-! ## Tensors in row-major order -/

theorem agreeOutside_iff {k : Option Nat} {shape shape' : TorchSize} :
    AgreeOutside k shape shape' ↔ shape.length = shape'.length ∧
      ∀ i < shape.length, some i ≠ k → shape[i]? = shape'[i]? := by
  refine and_congr_right fun hlength => ⟨fun h i _ hi => h i hi, fun h i hi => ?_⟩
  by_cases hlt : i < shape.length
  · exact h i hlt hi
  · rw [List.getElem?_eq_none (Nat.le_of_not_lt hlt),
      List.getElem?_eq_none (hlength ▸ Nat.le_of_not_lt hlt)]

instance (k : Option Nat) (shape shape' : TorchSize) : Decidable (AgreeOutside k shape shape') :=
  decidable_of_iff' _ agreeOutside_iff

theorem AgreeOutside.set_eq {k : Nat} {shape shape' : TorchSize}
    (h : AgreeOutside (some k) shape shape') (n : Nat) : shape.set k n = shape'.set k n := by
  refine List.ext_getElem? fun i => ?_
  rw [List.getElem?_set, List.getElem?_set, h.1]
  split
  · rfl
  · rename_i hne
    exact h.2 i fun heq => hne (Option.some.inj heq).symm

/-- A tensor by its elements in row-major order. -/
structure RowMajor where
  dtype : Option DType
  shape : TorchSize
  data : List Nat
  deriving DecidableEq

/-- `torch.cat` of tensors that agree. -/
def RowMajor.cat (tensors : List RowMajor) (dim : Int) : Except LoadError RowMajor :=
  match tensors with
  | [] => .error (.raised (.runtimeError "torch.cat(): expected a non-empty list of Tensors"))
  | first :: _ =>
      match axis dim first.shape.length with
      | none => .error (.indexError "Dimension out of range")
      | some k => .ok {
          dtype := first.dtype
          shape := first.shape.set k (tensors.map fun t => extent k t.shape).sum
          data := (List.range (first.shape.take k).prod).flatMap fun outer =>
            tensors.flatMap fun t =>
              (t.data.drop (outer * (t.shape.drop k).prod)).take (t.shape.drop k).prod }

def rowMajor : Torch RowMajor where
  dtype := RowMajor.dtype
  dtypeText t := (t.dtype.map DType.text).getD ""
  shape := RowMajor.shape
  cat := RowMajor.cat
  cat_ok := by
    intro tensors dim type shape₀ k hne hk hall
    obtain ⟨first, rest, rfl⟩ := List.exists_cons_of_ne_nil hne
    obtain ⟨htype, hagree⟩ := hall first List.mem_cons_self
    have haxis : axis dim first.shape.length = some k := by rw [hagree.1, hk]
    simp only [RowMajor.cat, haxis]
    exact ⟨_, rfl, htype, hagree.set_eq _⟩

/-- A shard of the parameter `w` with one dimension, which is concatenated. -/
def shardOfW (data : List Nat) : Shard RowMajor :=
  ⟨"w", ⟨some .float32, [data.length], data⟩, 0, true, ""⟩

/-- Three files with shards of one parameter, of extents 1, 2 and 3. -/
def unequalDisk : Disk RowMajor where
  fastNpLoad filePath :=
    if filePath = "model.0.0.npy" then .ok [shardOfW [1]]
    else if filePath = "model.0.1.npy" then .ok [shardOfW [2, 3]]
    else if filePath = "model.0.2.npy" then .ok [shardOfW [4, 5, 6]]
    else .error (.raised (.osError filePath))
  safetensors filePath := .error (.raised (.osError filePath))
  metaText _ _ := ""

theorem loadShards_unequalDisk :
    loadShards unequalDisk ["model.0.1.npy", "model.0.0.npy", "model.0.2.npy"] =
      .ok [(1, shardOfW [2, 3]), (0, shardOfW [1]), (2, shardOfW [4, 5, 6])] := by
  decide +kernel

theorem consistent_unequalDisk {files : List String} {items : List (Int × Shard RowMajor)}
    (h : loadShards unequalDisk files = .ok items)
    (hfiles : ["model.0.1.npy", "model.0.0.npy", "model.0.2.npy"].Perm files) :
    Consistent rowMajor items := by
  obtain ⟨items', hitems', hperm⟩ := loadShards_perm hfiles loadShards_unequalDisk
  obtain rfl := Except.ok.inj (hitems'.symm.trans h)
  exact Consistent.perm hperm ⟨by decide, by decide⟩

/-- The shard of extent 2, the average of the three, is seen first in both orders. -/
theorem loadCheckpoint_perm_iff_average :
    OrderIndependent rowMajor unequalDisk ["model.0.1.npy", "model.0.0.npy", "model.0.2.npy"]
      ["model.0.1.npy", "model.0.2.npy", "model.0.0.npy"] := by
  have hperm : ["model.0.1.npy", "model.0.0.npy", "model.0.2.npy"].Perm
      ["model.0.1.npy", "model.0.2.npy", "model.0.0.npy"] := by decide
  have hload' : loadShards unequalDisk ["model.0.1.npy", "model.0.2.npy", "model.0.0.npy"] =
      .ok [(1, shardOfW [2, 3]), (2, shardOfW [4, 5, 6]), (0, shardOfW [1])] := by
    decide +kernel
  have hshards : [(1, shardOfW [2, 3]), (0, shardOfW [1]), (2, shardOfW [4, 5, 6])].Perm
      [(1, shardOfW [2, 3]), (2, shardOfW [4, 5, 6]), ((0 : Int), shardOfW [1])] :=
    .cons _ (.swap _ _ _)
  have hfirsts : ∀ name,
      (shardsOf name [(1, shardOfW [2, 3]), (0, shardOfW [1]), (2, shardOfW [4, 5, 6])]).head? =
        (shardsOf name
          [(1, shardOfW [2, 3]), (2, shardOfW [4, 5, 6]), ((0 : Int), shardOfW [1])]).head? := by
    intro name
    cases decEq "w" name with
    | isTrue heq => simp [shardsOf, shardOfW, heq]
    | isFalse hne => simp [shardsOf, shardOfW, hne]
  refine (loadCheckpoint_perm_iff rowMajor unequalDisk hperm
    fun _ hitems => consistent_unequalDisk hitems (.refl _)).mpr ?_
  rintro items items' hitems hitems' -
  obtain rfl := Except.ok.inj (loadShards_unequalDisk.symm.trans hitems)
  obtain rfl := Except.ok.inj (hload'.symm.trans hitems')
  exact ⟨fun h => h.perm hshards hfirsts,
    fun h => h.perm hshards.symm fun name => (hfirsts name).symm⟩

/-- Shards of extents 1, 2 and 3 are loaded when that of extent 2 is seen first, and raise
when that of extent 1 is. -/
theorem loadCheckpoint_depends_on_order :
    let files := ["model.0.0.npy", "model.0.1.npy", "model.0.2.npy"]
    let files' := ["model.0.1.npy", "model.0.0.npy", "model.0.2.npy"]
    files.Perm files' ∧
      (∀ items, loadShards unequalDisk files = .ok items → Consistent rowMajor items) ∧
      loadCheckpoint rowMajor unequalDisk files' =
        .ok [("w", ⟨some .float32, [6], [1, 2, 3, 4, 5, 6]⟩)] ∧
      loadCheckpoint rowMajor unequalDisk files = .error (.raised (.assertionError
        "parameter w shape mismatch, torch.Size([3]) != torch.Size([6])")) ∧
      ¬ OrderIndependent rowMajor unequalDisk files files' := by
  have hok : loadCheckpoint rowMajor unequalDisk ["model.0.1.npy", "model.0.0.npy", "model.0.2.npy"]
      = .ok [("w", ⟨some .float32, [6], [1, 2, 3, 4, 5, 6]⟩)] := by decide +kernel
  have herror : loadCheckpoint rowMajor unequalDisk
      ["model.0.0.npy", "model.0.1.npy", "model.0.2.npy"] = .error (.raised (.assertionError
        "parameter w shape mismatch, torch.Size([3]) != torch.Size([6])")) := by decide +kernel
  refine ⟨by decide, fun _ hitems => consistent_unequalDisk hitems (by decide), hok, herror, ?_⟩
  rintro (⟨-, e, he⟩ | ⟨params, -, -, hparams, -⟩)
  · cases hok.symm.trans he
  · cases herror.symm.trans hparams

end CheckpointEngine.Registry.TensorParallel
