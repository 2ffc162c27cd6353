/-
  `Plan.Tiling`: the bucket plan is an exact, bounded tiling of the owner's
  buffers.

  The planner is next-fit on the owner's tensors: `Simulates` relates the loop
  variables to a packing of placed tensors, and one iteration of the inner loop
  is one `Packing.place`.  The relation keeps, besides items and sizes, one
  equation between address lists: what the recorded ranges read, followed by the
  range still pending, is what the open bin's tensors occupy.
-/
import CheckpointEngine.Plan.Receivers
import CheckpointEngine.Foundation.NextFit
import CheckpointEngine.Plan.Ranges

set_option autoImplicit false

namespace CheckpointEngine.Plan

open CheckpointEngine.Foundation

/-- The addresses a placed tensor occupies. -/
def Entry.addresses (e : Entry) : List (Nat × Nat) :=
  span e.idx e.offset e.param.alignedSize

/-- The weight the planner packs by. -/
def Entry.weight (e : Entry) : Nat := e.param.alignedSize

/-- The addresses a list of placed tensors occupies, in order. -/
def entryAddresses (es : List Entry) : List (Nat × Nat) :=
  es.flatMap Entry.addresses

theorem length_entryAddresses (es : List Entry) :
    (entryAddresses es).length = load Entry.weight es := by
  induction es with
  | nil => rfl
  | cons e rest ih =>
      simp only [entryAddresses, List.flatMap_cons, List.length_append] at ih ⊢
      simp [ih, Entry.addresses, Entry.weight]

theorem entryAddresses_append (es es' : List Entry) :
    entryAddresses (es ++ es') = entryAddresses es ++ entryAddresses es' := by
  simp [entryAddresses]

/-! ## The planner simulates next-fit -/

/-- A bucket that carries exactly the placed tensors `es`, in order, and reads
exactly their bytes. -/
structure Carries (bucket : H2DBucket) (es : List Entry) : Prop where
  items_eq : bucket.items = es.map Entry.param
  size_eq : bucket.size = load Entry.weight es
  reads : rangeAddresses bucket.ranges = entryAddresses es

/-- The loop variables, while buffer `idx` is scanned, against a packing. -/
structure Simulates (idx : Nat) (scan : Scan) (p : Packing Entry) : Prop where
  closed : List.Forall₂ Carries scan.closed p.closed
  items_eq : scan.last.items = p.openBin.map Entry.param
  size_eq : scan.last.size = load Entry.weight p.openBin
  start_le : scan.startOffset ≤ scan.offset
  reads : rangeAddresses scan.last.ranges ++
    span idx scan.startOffset (scan.offset - scan.startOffset) = entryAddresses p.openBin

/-- The range recorded when a bucket is closed, or at the end of a buffer,
completes what the bucket reads. -/
theorem Simulates.flush_reads {idx : Nat} {scan : Scan} {p : Packing Entry}
    (h : Simulates idx scan p) :
    rangeAddresses (scan.flush idx).ranges = entryAddresses p.openBin := by
  rw [← h.reads]
  simp [Scan.flush, rangeAddresses, BucketRange.addresses]

theorem Simulates.cut_last {idx : Nat} {scan : Scan} {p : Packing Entry}
    (h : Simulates idx scan p) :
    Carries (if scan.offset - scan.startOffset > 0 then scan.flush idx else scan.last)
      p.openBin := by
  split
  · exact ⟨h.items_eq, h.size_eq, h.flush_reads⟩
  · rename_i hzero
    refine ⟨h.items_eq, h.size_eq, ?_⟩
    have hreads := h.reads
    rw [show scan.offset - scan.startOffset = 0 by omega] at hreads
    simpa using hreads

/-- One iteration of the inner loop is one step of next-fit. -/
theorem Simulates.addMeta {idx : Nat} {scan : Scan} {p : Packing Entry}
    (h : Simulates idx scan p) (bucketSize : Nat) (param : ParameterMeta) :
    Simulates idx (scan.addMeta bucketSize idx param)
      (p.place bucketSize Entry.weight ⟨idx, scan.offset, param⟩) := by
  have hweight : Entry.weight ⟨idx, scan.offset, param⟩ = param.alignedSize := rfl
  unfold Scan.addMeta Packing.place
  rw [hweight, ← h.size_eq]
  by_cases hover : scan.last.size + param.alignedSize > bucketSize
  · -- the bucket is closed and the tensor opens the next one
    simp only [if_pos hover]
    refine ⟨?_, by simp [Scan.cut, H2DBucket.empty], ?_, ?_, ?_⟩
    · exact List.rel_append h.closed (.cons h.cut_last .nil)
    · simp [Scan.cut, H2DBucket.empty, Entry.weight]
    · simp [Scan.cut]
    · simp [Scan.cut, H2DBucket.empty, rangeAddresses, entryAddresses, Entry.addresses]
  · -- the pending range grows by the tensor
    simp only [if_neg hover]
    have hstart := h.start_le
    refine ⟨h.closed, by simp [h.items_eq], ?_, by simp; omega, ?_⟩
    · simp [h.size_eq, hweight]
    · have hspan : span idx scan.startOffset
            (scan.offset + param.alignedSize - scan.startOffset)
          = span idx scan.startOffset (scan.offset - scan.startOffset)
            ++ span idx scan.offset param.alignedSize := by
        rw [show scan.offset + param.alignedSize - scan.startOffset
            = (scan.offset - scan.startOffset) + param.alignedSize by omega, span_add,
          show scan.startOffset + (scan.offset - scan.startOffset) = scan.offset by omega]
      simp only [hspan, ← List.append_assoc, h.reads, entryAddresses_append]
      simp [entryAddresses, Entry.addresses]

/-- The inner loop packs the buffer's tensors behind the current offset. -/
theorem Simulates.foldl_addMeta {idx : Nat} (bucketSize : Nat) (params : List ParameterMeta) :
    ∀ {scan : Scan} {p : Packing Entry}, Simulates idx scan p →
      Simulates idx (params.foldl (Scan.addMeta bucketSize idx) scan)
        ((placeMetas idx scan.offset params).foldl
          (Packing.place bucketSize Entry.weight) p) := by
  induction params with
  | nil => intro scan p h; exact h
  | cons param rest ih =>
      intro scan p h
      have hrest := ih (h.addMeta bucketSize param)
      rw [Scan.addMeta_offset] at hrest
      exact hrest

/-- Between two buffers nothing is pending. -/
structure Settled (scan : Scan) (p : Packing Entry) : Prop where
  closed : List.Forall₂ Carries scan.closed p.closed
  last : Carries scan.last p.openBin

theorem Settled.addBuffer {bucketSize : Nat} {scan : Scan} {p : Packing Entry}
    (h : Settled scan p) (buffer : MemoryBufferMetas × Nat) :
    Settled (scan.addBuffer bucketSize buffer)
      ((placeMetas buffer.2 0 buffer.1.metas).foldl
        (Packing.place bucketSize Entry.weight) p) := by
  have hstart : Simulates buffer.2 { scan with startOffset := 0, offset := 0 } p :=
    ⟨h.closed, h.last.items_eq, h.last.size_eq, Nat.le_refl 0,
      by simpa using h.last.reads⟩
  have hend := hstart.foldl_addMeta bucketSize buffer.1.metas
  exact ⟨hend.closed, hend.items_eq, hend.size_eq, hend.flush_reads⟩

/-- The scan of all buffers packs all the owner's tensors. -/
theorem settled_foldl {bucketSize : Nat} (buffers : List (MemoryBufferMetas × Nat)) :
    ∀ {scan : Scan} {p : Packing Entry}, Settled scan p →
      Settled (buffers.foldl (Scan.addBuffer bucketSize) scan)
        ((placeBuffers buffers).foldl (Packing.place bucketSize Entry.weight) p) := by
  induction buffers with
  | nil => intro scan p h; exact h
  | cons buffer rest ih =>
      intro scan p h
      rw [List.foldl_cons, placeBuffers, List.foldl_append]
      exact ih (h.addBuffer buffer)

theorem scanOwner_settled (bucketSize : Nat) (buffers : List MemoryBufferMetas) :
    Settled (scanOwner bucketSize buffers)
      (packing bucketSize Entry.weight (entries buffers)) :=
  settled_foldl buffers.zipIdx ⟨.nil, ⟨rfl, rfl, rfl⟩⟩

/-- The buckets of an owner carry the bins of next-fit, one for one. -/
theorem scanOwner_carries (bucketSize : Nat) (buffers : List MemoryBufferMetas) :
    List.Forall₂ Carries
      ((scanOwner bucketSize buffers).closed ++ [(scanOwner bucketSize buffers).last])
      (nextFit bucketSize Entry.weight (entries buffers)) := by
  have h := scanOwner_settled bucketSize buffers
  exact List.rel_append h.closed (.cons h.last .nil)

/-! ## What a bucket that carries its tensors guarantees -/

/-- Byte `j` of a tensor, counted from the start of the bucket, is read from byte
`j` of the tensor's own place. -/
theorem Carries.address {bucket : H2DBucket} {before after : List Entry} {e : Entry}
    (h : Carries bucket (before ++ e :: after)) {j : Nat} (hj : j < e.param.alignedSize) :
    (rangeAddresses bucket.ranges)[load Entry.weight before + j]? =
      some (e.idx, e.offset + j) := by
  rw [h.reads, entryAddresses_append, ← length_entryAddresses]
  have hcons : entryAddresses (e :: after) = e.addresses ++ entryAddresses after := by
    simp [entryAddresses]
  rw [hcons, ← List.append_assoc]
  exact getElem?_append_span _ _ hj

theorem Carries.size_eq_ranges {bucket : H2DBucket} {es : List Entry}
    (h : Carries bucket es) : bucket.size = (bucket.ranges.map (·.size)).sum := by
  rw [h.size_eq, ← length_rangeAddresses, h.reads, length_entryAddresses]

theorem Carries.size_eq_items {bucket : H2DBucket} {es : List Entry}
    (h : Carries bucket es) : bucket.size = totalSize bucket.items := by
  rw [h.size_eq, h.items_eq]
  exact (load_map ParameterMeta.alignedSize Entry.param es).symm

/-- The items from position `p` of a bucket on, each with the place its position
maps to. -/
def placeItems (ranges : List BucketRange) :
    Nat → List ParameterMeta → List (ParameterMeta × Option (Nat × Nat))
  | _, [] => []
  | p, item :: rest =>
      (item, locate ranges p) :: placeItems ranges (p + item.alignedSize) rest

/-- The items of a bucket with the places their positions map to. -/
def placedItems (bucket : H2DBucket) : List (ParameterMeta × Option (Nat × Nat)) :=
  placeItems bucket.ranges 0 bucket.items

/-- A placed tensor the way `placedItems` lists it. -/
def Entry.placed (e : Entry) : ParameterMeta × Option (Nat × Nat) :=
  (e.param, some (e.idx, e.offset))

theorem Carries.placeItems {bucket : H2DBucket} {after : List Entry} :
    ∀ before : List Entry, Carries bucket (before ++ after) →
      (placeItems bucket.ranges (load Entry.weight before) (after.map Entry.param)).filter
          (0 < ·.1.alignedSize) =
        (after.filter (0 < ·.param.alignedSize)).map Entry.placed := by
  induction after with
  | nil => intro before _; rfl
  | cons e rest ih =>
      intro before h
      have hrest := ih (before ++ [e]) (by simpa using h)
      rw [load_append, load_singleton] at hrest
      simp only [List.map_cons, Plan.placeItems]
      by_cases hpos : 0 < e.param.alignedSize
      · have hplace : locate bucket.ranges (load Entry.weight before) =
            some (e.idx, e.offset) := by
          rw [locate_eq_getElem?]
          simpa using h.address hpos
        rw [List.filter_cons_of_pos (by simpa using hpos),
          List.filter_cons_of_pos (by simpa using hpos), List.map_cons, hplace]
        exact congrArg _ hrest
      · rw [List.filter_cons_of_neg (by simpa using hpos),
          List.filter_cons_of_neg (by simpa using hpos)]
        exact hrest

/-- Every position of a tensor that has bytes maps to the tensor's own place. -/
theorem Carries.placedItems {bucket : H2DBucket} {es : List Entry} (h : Carries bucket es) :
    (placedItems bucket).filter (0 < ·.1.alignedSize) =
      (es.filter (0 < ·.param.alignedSize)).map Entry.placed := by
  unfold Plan.placedItems
  rw [h.items_eq]
  exact Carries.placeItems [] h

/-! ## The plan of one owner -/

/-- An owner's plan is an exact, bounded tiling of its memory buffers. -/
structure ExactTiling (bucketSize : Nat) (buffers : List MemoryBufferMetas)
    (buckets : List H2DBucket) : Prop where
  /-- all metas, in buffer order, each exactly once -/
  items_eq : buckets.flatMap (·.items) = buffers.flatMap (·.metas)
  /-- the ranges that are not empty tile every buffer, in order -/
  tiles : rangeAddresses ((buckets.flatMap (·.ranges)).filter (0 < ·.size)) =
    buffers.zipIdx.flatMap fun buffer => span buffer.2 0 (totalSize buffer.1.metas)
  bounded : ∀ bucket ∈ buckets, 0 < bucket.size ∧ bucket.size ≤ bucketSize
  size_eq_ranges : ∀ bucket ∈ buckets, bucket.size = (bucket.ranges.map (·.size)).sum
  size_eq_items : ∀ bucket ∈ buckets, bucket.size = totalSize bucket.items
  /-- positions map back to the places the tensors have in their buffers -/
  placed : (buckets.flatMap placedItems).filter (0 < ·.1.alignedSize) =
    ((entries buffers).filter (0 < ·.param.alignedSize)).map Entry.placed

theorem entryAddresses_placeMetas (idx offset : Nat) (params : List ParameterMeta) :
    entryAddresses (placeMetas idx offset params) = span idx offset (totalSize params) := by
  induction params generalizing offset with
  | nil => rfl
  | cons param rest ih =>
      have htotal : totalSize (param :: rest) = param.alignedSize + totalSize rest := by
        simp [totalSize]
      rw [htotal, span_add, ← ih]
      simp [placeMetas, entryAddresses, Entry.addresses]

/-- The tensors of an owner tile its buffers. -/
theorem entryAddresses_entries (buffers : List MemoryBufferMetas) :
    entryAddresses (entries buffers) =
      buffers.zipIdx.flatMap fun buffer => span buffer.2 0 (totalSize buffer.1.metas) := by
  unfold entries
  induction buffers.zipIdx with
  | nil => rfl
  | cons buffer rest ih =>
      rw [placeBuffers, entryAddresses_append, ih, entryAddresses_placeMetas]
      rfl

/-- A list of buckets carrying, one for one, the bins of a grouped list. -/
theorem rangeAddresses_of_forall₂ {buckets : List H2DBucket} {bins : List (List Entry)}
    (h : List.Forall₂ Carries buckets bins) :
    rangeAddresses (buckets.flatMap (·.ranges)) = entryAddresses bins.flatten := by
  induction h with
  | nil => rfl
  | cons hhead _ ih =>
      rw [List.flatten_cons, entryAddresses_append, ← ih, ← hhead.reads]
      simp [rangeAddresses]

theorem items_of_forall₂ {buckets : List H2DBucket} {bins : List (List Entry)}
    (h : List.Forall₂ Carries buckets bins) :
    buckets.flatMap (·.items) = bins.flatten.map Entry.param := by
  induction h with
  | nil => rfl
  | cons hhead _ ih => simp [ih, hhead.items_eq]

theorem placedItems_of_forall₂ {buckets : List H2DBucket} {bins : List (List Entry)}
    (h : List.Forall₂ Carries buckets bins) :
    (buckets.flatMap placedItems).filter (0 < ·.1.alignedSize) =
      (bins.flatten.filter (0 < ·.param.alignedSize)).map Entry.placed := by
  induction h with
  | nil => rfl
  | cons hhead _ ih =>
      rw [List.flatMap_cons, List.filter_append, ih, hhead.placedItems]
      simp

/-- An owner the planner accepts as input: no tensor exceeds the bucket size and
the tensors have bytes at all. -/
structure Plannable (bucketSize : Nat) (buffers : List MemoryBufferMetas) : Prop where
  fits : ∀ buffer ∈ buffers, ∀ param ∈ buffer.metas, param.alignedSize ≤ bucketSize
  nonempty : 0 < totalSize (buffers.flatMap (·.metas))

theorem load_entries (buffers : List MemoryBufferMetas) :
    load Entry.weight (entries buffers) = totalSize (buffers.flatMap (·.metas)) := by
  rw [← entries_map_param]
  exact (load_map ParameterMeta.alignedSize Entry.param (entries buffers)).symm

theorem Plannable.entry_le {bucketSize : Nat} {buffers : List MemoryBufferMetas}
    (h : Plannable bucketSize buffers) : ∀ e ∈ entries buffers, e.weight ≤ bucketSize := by
  intro e he
  have hparam : e.param ∈ (entries buffers).map Entry.param := List.mem_map_of_mem he
  rw [entries_map_param] at hparam
  obtain ⟨buffer, hbuffer, hmem⟩ := List.mem_flatMap.mp hparam
  exact h.fits buffer hbuffer e.param hmem

/-- Every bucket carries a bin of next-fit with a positive load. -/
theorem Plannable.bin_load {bucketSize : Nat} {buffers : List MemoryBufferMetas}
    (h : Plannable bucketSize buffers) :
    ∀ bin ∈ nextFit bucketSize Entry.weight (entries buffers),
      0 < load Entry.weight bin ∧ load Entry.weight bin ≤ bucketSize := by
  intro bin hbin
  have hpos : 0 < load Entry.weight (entries buffers) := by
    rw [load_entries]
    exact h.nonempty
  exact ⟨nextFit_load_pos h.entry_le hpos bin hbin, nextFit_load_le h.entry_le bin hbin⟩

/-- The assertion at the end of an owner's scan holds, and the owner's buckets
carry the bins of next-fit. -/
theorem Plannable.ownerBuckets_carry {bucketSize : Nat} {buffers : List MemoryBufferMetas}
    (h : Plannable bucketSize buffers) :
    ∃ buckets, ownerBuckets bucketSize buffers = .ok buckets ∧
      List.Forall₂ Carries buckets (nextFit bucketSize Entry.weight (entries buffers)) := by
  have hcarries := scanOwner_carries bucketSize buffers
  obtain ⟨bin, hbin, hlast⟩ := exists_of_forall₂ hcarries
    (List.mem_append_right _ (List.mem_singleton_self (scanOwner bucketSize buffers).last))
  have hpos : (scanOwner bucketSize buffers).last.size > 0 := by
    rw [hlast.size_eq]
    exact (h.bin_load bin hbin).1
  exact ⟨_, ownerBuckets_eq_ok.mpr ⟨hpos, rfl⟩, hcarries⟩

theorem exactTiling_of_carries {bucketSize : Nat} {buffers : List MemoryBufferMetas}
    (h : Plannable bucketSize buffers) {buckets : List H2DBucket}
    (hcarries : List.Forall₂ Carries buckets
      (nextFit bucketSize Entry.weight (entries buffers))) :
    ExactTiling bucketSize buffers buckets where
  items_eq := by
    rw [items_of_forall₂ hcarries, nextFit_flatten, entries_map_param]
  tiles := by
    rw [rangeAddresses_filter, rangeAddresses_of_forall₂ hcarries, nextFit_flatten,
      entryAddresses_entries]
  bounded := by
    intro bucket hbucket
    obtain ⟨bin, hbin, hb⟩ := exists_of_forall₂ hcarries hbucket
    rw [hb.size_eq]
    exact h.bin_load bin hbin
  size_eq_ranges := by
    intro bucket hbucket
    obtain ⟨_, _, hb⟩ := exists_of_forall₂ hcarries hbucket
    exact hb.size_eq_ranges
  size_eq_items := by
    intro bucket hbucket
    obtain ⟨_, _, hb⟩ := exists_of_forall₂ hcarries hbucket
    exact hb.size_eq_items
  placed := by
    rw [placedItems_of_forall₂ hcarries, nextFit_flatten]

/-! ## The plan of all owners -/

/-- What the planner expects of its first two arguments: a dictionary of owners,
none of them without bytes, and a bucket size that holds every tensor. -/
structure PlannerInput (globalMetas : GlobalMetas) (bucketSize : Nat) : Prop where
  keys_nodup : (globalMetas.map Prod.fst).Nodup
  plannable : ∀ owner ∈ globalMetas, Plannable bucketSize owner.2.memoryBufferMetasList

/-- The buckets the plan holds for one owner, in order. -/
def bucketsOf (owner : Rank) (buckets : List (Rank × H2DBucket)) : List H2DBucket :=
  (buckets.filter (·.1 = owner)).map Prod.snd

theorem bucketsOf_append (owner : Rank) (xs ys : List (Rank × H2DBucket)) :
    bucketsOf owner (xs ++ ys) = bucketsOf owner xs ++ bucketsOf owner ys := by
  simp [bucketsOf]

theorem bucketsOf_tagged (owner other : Rank) (own : List H2DBucket) :
    bucketsOf owner (own.map (other, ·)) = if other = owner then own else [] := by
  unfold bucketsOf
  by_cases h : other = owner <;> simp [h, List.filter_map, Function.comp_def]

/-- The planner succeeds, and its buckets carry each owner's bins of next-fit. -/
theorem PlannerInput.allBuckets_carry {bucketSize : Nat} {globalMetas : GlobalMetas}
    (h : PlannerInput globalMetas bucketSize) :
    ∃ buckets, allBuckets bucketSize globalMetas = .ok buckets ∧
      (∀ b ∈ buckets, b.1 ∈ globalMetas.map Prod.fst) ∧
      ∀ owner ∈ globalMetas, List.Forall₂ Carries (bucketsOf owner.1 buckets)
        (nextFit bucketSize Entry.weight (entries owner.2.memoryBufferMetasList)) := by
  obtain ⟨hnodup, hplannable⟩ := h
  induction globalMetas with
  | nil => exact ⟨[], rfl, by simp, by simp⟩
  | cons owner rest ih =>
      rw [List.map_cons, List.nodup_cons] at hnodup
      obtain ⟨own, hown, hcarries⟩ := (hplannable owner List.mem_cons_self).ownerBuckets_carry
      obtain ⟨others, hothers, hkeys, hall⟩ := ih hnodup.2
        fun o ho => hplannable o (List.mem_cons_of_mem _ ho)
      have hforeign : bucketsOf owner.1 others = [] := by
        unfold bucketsOf
        rw [List.map_eq_nil_iff, List.filter_eq_nil_iff]
        intro b hb heq
        exact hnodup.1 ((of_decide_eq_true heq) ▸ hkeys b hb)
      refine ⟨own.map (owner.1, ·) ++ others, ?_, ?_, ?_⟩
      · obtain ⟨ownerRank, items⟩ := owner
        simp only [allBuckets, hown, hothers]
        rfl
      · intro b hb
        rcases List.mem_append.mp hb with hb | hb
        · obtain ⟨_, _, rfl⟩ := List.mem_map.mp hb
          exact List.mem_cons_self
        · exact List.mem_cons_of_mem _ (hkeys b hb)
      · intro o ho
        rw [bucketsOf_append, bucketsOf_tagged]
        rcases List.mem_cons.mp ho with rfl | ho
        · simpa [hforeign] using hcarries
        · have hne : owner.1 ≠ o.1 := by
            intro heq
            exact hnodup.1 (heq ▸ List.mem_map_of_mem ho)
          simpa [hne] using hall o ho

/-- **The plan is an exact, bounded tiling.**  With `ranks` empty the planner
returns a plan that gives every bucket to its owner, and each owner's buckets
tile that owner's memory buffers. -/
theorem genH2dBuckets_exact_tiling {globalMetas : GlobalMetas} {bucketSize : Nat}
    (h : PlannerInput globalMetas bucketSize) (localTopo remoteTopo : Topology) :
    ∃ plan, genH2dBuckets globalMetas bucketSize localTopo remoteTopo [] = .ok (some plan) ∧
      (∀ x ∈ plan, x.1 = x.2.1) ∧
      ∀ owner ∈ globalMetas,
        ExactTiling bucketSize owner.2.memoryBufferMetasList
          (bucketsOf owner.1 (plan.map Prod.snd)) := by
  obtain ⟨buckets, hok, _, hall⟩ := h.allBuckets_carry
  refine ⟨buckets.map fun b => (b.1, b.1, b.2), ?_, ?_, ?_⟩
  · simp only [genH2dBuckets, hok]
    rfl
  · intro x hx
    obtain ⟨_, _, rfl⟩ := List.mem_map.mp hx
    rfl
  · intro owner howner
    have hsnd : (buckets.map fun b => (b.1, b.1, b.2)).map Prod.snd = buckets := by
      simp [Function.comp_def]
    rw [hsnd]
    exact exactTiling_of_carries (h.plannable owner howner) (hall owner howner)

/-! ## A tensor without bytes

A full bucket still takes a tensor of size 0 from the next buffer.  When the
tensor behind it then closes the bucket, no range is recorded for that buffer,
so the empty tensor's position lies behind all ranges of its bucket. -/

/-- One owner, two buffers; the second begins with an empty tensor. -/
def emptyTensorMetas : GlobalMetas :=
  [(0, ⟨none,
    [⟨[⟨"a", .uint8, [4], 4⟩], 4096, 4⟩,
      ⟨[⟨"z", .uint8, [0], 0⟩, ⟨"b", .uint8, [4], 4⟩], 8192, 4⟩], "mlx5_0"⟩)]

theorem emptyTensorMetas_input : PlannerInput emptyTensorMetas 4 where
  keys_nodup := by decide
  plannable := by
    intro owner howner
    obtain rfl := List.mem_singleton.mp howner
    exact ⟨by decide, by decide⟩

/-- The plan for `emptyTensorMetas` and bucket size 4. -/
def emptyTensorPlan : List (Rank × Rank × H2DBucket) :=
  [(0, 0, ⟨4, [⟨0, 0, 4⟩], [⟨"a", .uint8, [4], 4⟩, ⟨"z", .uint8, [0], 0⟩]⟩),
    (0, 0, ⟨4, [⟨1, 0, 4⟩], [⟨"b", .uint8, [4], 4⟩]⟩)]

/-- The empty tensor lies at offset 0 of buffer 1, but its position in its bucket
maps to no place: not every item's position maps to the item's own place. -/
theorem emptyTensor_unplaced :
    PlannerInput emptyTensorMetas 4 ∧
      genH2dBuckets emptyTensorMetas 4 [] [] [] = .ok (some emptyTensorPlan) ∧
      (emptyTensorPlan.flatMap fun x => placedItems x.2.2) ≠
        (emptyTensorMetas.flatMap fun owner =>
          (entries owner.2.memoryBufferMetasList).map Entry.placed) :=
  ⟨emptyTensorMetas_input, rfl, by decide⟩

theorem genH2dBuckets_exact_tiling_emptyTensor :
    ∃ plan, genH2dBuckets emptyTensorMetas 4 [] [] [] = .ok (some plan) ∧
      (∀ x ∈ plan, x.1 = x.2.1) ∧
      ∀ owner ∈ emptyTensorMetas,
        ExactTiling 4 owner.2.memoryBufferMetasList
          (bucketsOf owner.1 (plan.map Prod.snd)) :=
  genH2dBuckets_exact_tiling emptyTensorMetas_input [] []

end CheckpointEngine.Plan
