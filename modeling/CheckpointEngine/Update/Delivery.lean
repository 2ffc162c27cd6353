/-
  `Update.Delivery`: what arrives at the workers is the checkpoint.

  A deployment is what a call of `update` finds: the announced memory buffers, the
  ranks and topologies, and the memory behind the announcements.  It determines the
  plan and what `_copy_to_buffer` does, and with them the update.
-/
import CheckpointEngine.Plan.Transfer
import CheckpointEngine.Update.DataFlow
import CheckpointEngine.Update.Stranded

set_option autoImplicit false

namespace CheckpointEngine

open CheckpointEngine.Foundation CheckpointEngine.Plan CheckpointEngine.Update

/-! ## The tensors of a bucket -/

namespace Plan

/-- A placed tensor as it lies in its owner's memory. -/
def Entry.weightIn (memory : Bytes) (pool : List MemoryBufferMetas) (e : Entry) : Weight :=
  ⟨e.param.name, e.param.dtype, e.param.shape,
    memory.read (bufferPtr pool e.idx + e.offset) e.param.nbytes⟩

/-- From `start` on the buffer holds the bytes that the ranges of the bucket name. -/
def BucketAt (memory : Bytes) (pool : List MemoryBufferMetas) (bucket : H2DBucket)
    (start : Nat) (buffer : Bytes) : Prop :=
  ∀ p idx place, (rangeAddresses bucket.ranges)[p]? = some (idx, place) →
    buffer (start + p) = memory (bufferPtr pool idx + place)

/-- What the worker cuts out of a buffer that holds a bucket are the bucket's tensors. -/
theorem extractWeights_bucketAt {memory buffer : Bytes} {pool : List MemoryBufferMetas}
    {bucket : H2DBucket} {start : Nat} (hat : BucketAt memory pool bucket start buffer)
    (after : List Entry) (hroom : ∀ e ∈ after, e.param.nbytes ≤ e.param.alignedSize) :
    ∀ before : List Entry, Carries bucket (before ++ after) →
      extractWeights buffer
          (toNamedTensor (after.map Entry.param) (start + load Entry.weight before)) =
        after.map (Entry.weightIn memory pool) := by
  induction after with
  | nil => intro before _; rfl
  | cons e rest ih =>
      intro before hcarries
      have hrest := ih (fun e' he' => hroom e' (List.mem_cons_of_mem _ he'))
        (before ++ [e]) (by simpa using hcarries)
      rw [load_append, load_singleton, ← Nat.add_assoc] at hrest
      have hbytes : buffer.read (start + load Entry.weight before) e.param.nbytes =
          memory.read (bufferPtr pool e.idx + e.offset) e.param.nbytes := by
        apply Memory.read_congr
        intro j hj
        have hlt := hj.trans_le (hroom e List.mem_cons_self)
        rw [Nat.add_assoc, hat _ _ _ (hcarries.address hlt), Nat.add_assoc]
      simp only [extractWeights, List.map_cons, toNamedTensor] at hrest ⊢
      refine List.cons_eq_cons.mpr ⟨?_, hrest⟩
      exact congrArg (Weight.mk e.param.name e.param.dtype e.param.shape) hbytes

/-- The tensors of a bucket, wherever it lies. -/
theorem Carries.extractWeights_eq {memory buffer : Bytes} {pool : List MemoryBufferMetas}
    {bucket : H2DBucket} {start : Nat} {es : List Entry} (h : Carries bucket es)
    (hat : BucketAt memory pool bucket start buffer)
    (hroom : ∀ e ∈ es, e.param.nbytes ≤ e.param.alignedSize) :
    extractWeights buffer (toNamedTensor bucket.items start) =
      es.map (Entry.weightIn memory pool) := by
  rw [h.items_eq]
  exact extractWeights_bucketAt hat es hroom [] h

/-- A tensor's announced extent ends where its bucket ends. -/
theorem toNamedTensor_extent {params : List ParameterMeta} :
    ∀ {offset : Nat} {item : NamedTensor}, item ∈ toNamedTensor params offset →
      ∃ param ∈ params, item.dtype = param.dtype ∧ item.shape = param.shape ∧
        item.offset + param.alignedSize ≤ offset + totalSize params := by
  induction params with
  | nil => intro offset item h; simp [toNamedTensor] at h
  | cons param rest ih =>
      intro offset item h
      have htotal : totalSize (param :: rest) = param.alignedSize + totalSize rest := by
        simp [totalSize]
      rcases List.mem_cons.mp h with rfl | h
      · refine ⟨param, List.mem_cons_self, rfl, rfl, ?_⟩
        simp only [htotal]
        omega
      · obtain ⟨param', hmem, hdtype, hshape, hle⟩ := ih h
        exact ⟨param', List.mem_cons_of_mem _ hmem, hdtype, hshape, by omega⟩

end Plan

/-! ## Deployments -/

/-- What a call of `update` finds. -/
structure Deployment where
  /-- `_current_global_parameter_metas` -/
  globalMetas : GlobalMetas
  worldSize : Nat
  /-- the argument `ranks`; the empty list stands for `None` as well -/
  ranks : List Rank
  /-- `_local_rdma_devices` -/
  localTopo : Topology
  /-- `_remote_rdma_devices` -/
  remoteTopo : Topology
  bucketSize : Nat
  disableH2dBuffer : Bool
  /-- the memory in which an owner has registered its buffers -/
  hostMemory : Rank → Bytes

namespace Deployment

/-- The ranks that take part: all, or those named. -/
def participants (d : Deployment) : List Rank :=
  if d.ranks.isEmpty then List.range d.worldSize else d.ranks

/-- The memory buffers a rank has announced. -/
def pool (d : Deployment) (owner : Rank) : List MemoryBufferMetas :=
  ((d.globalMetas.lookup owner).map (·.memoryBufferMetasList)).getD []

/-- What `_copy_to_buffer` makes of a bucket of `owner`, or `none` when it raises. -/
def fetch (d : Deployment) (owner : Rank) (bucket : H2DBucket) : Option Bytes :=
  copyRanges (d.hostMemory owner) (d.pool owner) bucket.size bucket.ranges 0 fun _ => 0

/-- `_copy_to_buffer` as `_update_per_bucket` calls it for the rank's own bucket of
outer iteration `i`.  Without `ranks` a rank reads its own pool, else the owner's. -/
def copyToBuffer (d : Deployment) (buckets : List Planned) (rank : Rank) (i : Nat) :
    Option Bytes :=
  match (receiverRankBuckets rank buckets)[i]? with
  | some (owner, bucket) => d.fetch (if d.ranks.isEmpty then rank else owner) bucket
  | none => some fun _ => 0 -- there is no such bucket, and no call

/-- All tensors of all owners, with their bytes. -/
def weights (d : Deployment) : List Weight :=
  d.globalMetas.flatMap fun owner =>
    (entries owner.2.memoryBufferMetasList).map
      (Entry.weightIn (d.hostMemory owner.1) owner.2.memoryBufferMetasList)

/-- The announcements are those of registered checkpoints, and the planner finds a
receiver for every bucket. -/
structure WellFormed (d : Deployment) : Prop where
  input : PlannerInput d.globalMetas d.bucketSize
  /-- the assertion at the head of `_update_per_bucket` -/
  metas_ne : d.globalMetas ≠ []
  /-- the tensors tile their buffer -/
  tiles : ∀ owner ∈ d.globalMetas, ∀ source ∈ owner.2.memoryBufferMetasList,
    totalSize source.metas = source.size
  room : ∀ owner ∈ d.globalMetas, ∀ source ∈ owner.2.memoryBufferMetasList,
    ∀ param ∈ source.metas, param.nbytes ≤ param.alignedSize
  /-- in a broadcast the owners take part -/
  broadcast : d.ranks = [] → ∀ owner ∈ d.globalMetas, owner.1 < d.worldSize
  /-- else the topologies list a rank of the update and every owner: `gather_metas`
  enters every rank, `load_metas` every owner -/
  p2p : d.ranks ≠ [] → (∃ group ∈ d.localTopo, ∃ rank ∈ group.2, rank ∈ d.ranks) ∧
    ∀ owner ∈ d.globalMetas, (rankToRdmaDevice d.remoteTopo owner.1).isSome

end Deployment

namespace Update

/-- Nothing raises, apart perhaps from a copy. -/
structure FaultFree (u : Update) : Prop where
  attach : ∀ rank ∈ u.ranks, u.env.attachRaises rank = false
  run : ∀ rank ∈ u.ranks, ∀ k, u.env.runRaises rank k = false
  release : ∀ rank ∈ u.ranks, u.env.releaseRaises rank = false
  postHook : ∀ rank ∈ u.ranks, u.env.postHookRaises rank = false
  request : ∀ rank ∈ u.ranks, ∃ waits, u.env.reqFunc rank = .starts waits false

theorem FaultFree.replyRaises {u : Update} (h : u.FaultFree) {rank : Rank}
    (hrank : rank ∈ u.ranks) (k : Nat) : u.replyRaises rank k = false := by
  cases k with
  | zero => exact h.attach rank hrank
  | succ k => simp [Update.replyRaises, h.run rank hrank k]

theorem FaultFree.outcome {u : Update} (h : u.FaultFree) : u.outcome = .returned :=
  outcome_returned_iff.mpr fun g _ _ hq => h.replyRaises hq g

theorem FaultFree.onlyWorkersFail {u : Update} (h : u.FaultFree) (hcopies : u.CopiesSucceed) :
    u.OnlyWorkersFail where
  copies := hcopies
  start := by
    intro rank hrank hraises
    obtain ⟨waits, hstarts⟩ := h.request rank hrank
    rw [hraises] at hstarts
    cases hstarts
  release := h.release
  postHook := h.postHook

end Update

namespace Deployment

/-- The update is the one the deployment leads to, and nothing raises in it but
what `_copy_to_buffer` raises. -/
structure Runs (d : Deployment) (u : Update) : Prop where
  ranks_eq : u.ranks = d.participants
  bucketSize_eq : u.bucketSize = d.bucketSize
  disable_eq : u.disableH2dBuffer = d.disableH2dBuffer
  plan_eq : genH2dBuckets d.globalMetas d.bucketSize d.localTopo d.remoteTopo d.ranks =
    .ok (some u.buckets)
  copy_eq : u.env.copyToBuffer = d.copyToBuffer u.buckets
  faultFree : u.FaultFree

/-- The checkpoint arrives. -/
structure Delivers (d : Deployment) (u : Update) : Prop where
  terminates : ∀ run : Nat → State, run 0 = u.initial →
    ¬ ∀ n, u.machine.Next (run n) (run (n + 1))
  /-- where nothing moves, every rank has returned, and its worker has been handed
  every tensor of every owner, each once and with its bytes -/
  delivered : ∀ s, u.Reachable s → u.Final s → ∀ r ∈ u.ranks,
    (s r).server.pc = .left .returned ∧ ((s r).worker.handed.flatten).Perm d.weights
  /-- every slice a worker takes lies inside the shared buffer -/
  inside : ∀ s, u.Reachable s → ∀ r ∈ u.ranks, ∀ payload, (s r).worker.pc = .run payload →
    ∀ item ∈ payload, item.offset + item.dtype.itemsize * numel item.shape ≤ 2 * d.bucketSize

/-! ## The plan of a deployment -/

variable {d : Deployment}

/-- The planned buckets with their owners. -/
def owned (d : Deployment) : List (Rank × H2DBucket) :=
  d.globalMetas.flatMap fun owner =>
    (ownerPlan d.bucketSize owner.2.memoryBufferMetasList).map (owner.1, ·)

theorem mem_owned {b : Rank × H2DBucket} (hb : b ∈ d.owned) :
    ∃ owner ∈ d.globalMetas, b.1 = owner.1 ∧
      b.2 ∈ ownerPlan d.bucketSize owner.2.memoryBufferMetasList := by
  obtain ⟨owner, howner, hmem⟩ := List.mem_flatMap.mp hb
  obtain ⟨bucket, hbucket, rfl⟩ := List.mem_map.mp hmem
  exact ⟨owner, howner, rfl, hbucket⟩

/-- The planner succeeds; its buckets are the owners' buckets, each with a receiver
that takes part, in a broadcast the owner itself. -/
theorem WellFormed.plan_ok (h : d.WellFormed) :
    ∃ plan, genH2dBuckets d.globalMetas d.bucketSize d.localTopo d.remoteTopo d.ranks =
        .ok (some plan) ∧
      (plan.map Prod.snd).Perm d.owned ∧ (∀ x ∈ plan, x.1 ∈ d.participants) ∧
      (d.ranks = [] → ∀ x ∈ plan, x.1 = x.2.1) := by
  have hall := PlannerInput.allBuckets_eq h.input.plannable
  cases hranks : d.ranks with
  | nil =>
      refine ⟨d.owned.map fun b => (b.1, b.1, b.2), ?_, ?_, ?_, ?_⟩
      · simp only [genH2dBuckets, hall]
        rfl
      · simp [Function.comp_def]
      · intro x hx
        obtain ⟨b, hb, rfl⟩ := List.mem_map.mp hx
        obtain ⟨owner, howner, hkey, _⟩ := mem_owned hb
        simp only [participants, hranks, List.isEmpty_nil, if_true, List.mem_range, hkey]
        exact h.broadcast hranks owner howner
      · intro _ x hx
        obtain ⟨b, _, rfl⟩ := List.mem_map.mp hx
        rfl
  | cons first others =>
      obtain ⟨hmeets, hremote⟩ := h.p2p (by simp [hranks])
      rw [hranks] at hmeets
      have hdevices : ∀ b ∈ d.owned, (rankToRdmaDevice d.remoteTopo b.1).isSome := by
        intro b hb
        obtain ⟨owner, howner, hkey, _⟩ := mem_owned hb
        exact hkey ▸ hremote owner howner
      obtain ⟨plan, hok, hperm, hmem⟩ :=
        assignReceiverRanks_ok (actualLocalTopo_ne_nil hmeets) hdevices
      refine ⟨plan, ?_, hperm, ?_, fun hnil => absurd hnil (List.cons_ne_nil first others)⟩
      · simp only [genH2dBuckets, hall]
        exact hok
      · intro x hx
        simpa [participants, hranks] using hmem x hx

/-- The metas a rank has announced are those the dictionary holds for it. -/
theorem pool_eq (h : d.WellFormed) {owner : Rank × MemoryBufferMetaList}
    (howner : owner ∈ d.globalMetas) : d.pool owner.1 = owner.2.memoryBufferMetasList := by
  have hlookup : d.globalMetas.lookup owner.1 = some owner.2 := by
    have hnodup := h.input.keys_nodup
    obtain ⟨before, after, hsplit⟩ := List.append_of_mem howner
    rw [hsplit, List.map_append, List.map_cons, List.nodup_middle, List.nodup_cons] at hnodup
    refine List.lookup_eq_some_iff.mpr ⟨before, after, hsplit, fun other hother => ?_⟩
    have hne : owner.1 ≠ other.1 := fun heq =>
      hnodup.1 (List.mem_append_left _ (heq ▸ List.mem_map_of_mem hother))
    simpa using hne
  simp [pool, hlookup]

/-- The entries of an owner have room for their tensors. -/
theorem WellFormed.entry_room (h : d.WellFormed) {owner : Rank × MemoryBufferMetaList}
    (howner : owner ∈ d.globalMetas) :
    ∀ e ∈ entries owner.2.memoryBufferMetasList, e.param.nbytes ≤ e.param.alignedSize := by
  intro e he
  have hparam : e.param ∈ (entries owner.2.memoryBufferMetasList).map Entry.param :=
    List.mem_map_of_mem he
  rw [entries_map_param] at hparam
  obtain ⟨source, hsource, hmem⟩ := List.mem_flatMap.mp hparam
  exact h.room owner howner source hsource e.param hmem

/-- A planned bucket carries tensors of its owner, and its copy succeeds. -/
structure Fetched (d : Deployment) (b : Rank × H2DBucket) (es : List Entry) (bytes : Bytes) :
    Prop where
  carries : Carries b.2 es
  fetch_eq : d.fetch b.1 b.2 = some bytes
  bucketAt : BucketAt (d.hostMemory b.1) (d.pool b.1) b.2 0 bytes
  room : ∀ e ∈ es, e.param.nbytes ≤ e.param.alignedSize

theorem WellFormed.fetched (h : d.WellFormed) {owner : Rank × MemoryBufferMetaList}
    (howner : owner ∈ d.globalMetas) {bucket : H2DBucket} {es : List Entry}
    (hbucket : bucket ∈ ownerPlan d.bucketSize owner.2.memoryBufferMetasList)
    (hcarries : Carries bucket es) (hes : es ⊆ entries owner.2.memoryBufferMetasList) :
    ∃ bytes, Fetched d (owner.1, bucket) es bytes := by
  have hwithin : ∀ range ∈ bucket.ranges, InPool (d.pool owner.1) range := by
    rw [pool_eq h howner]
    exact scanOwner_within d.bucketSize (fun source hsource =>
      (h.tiles owner howner source hsource).le) bucket hbucket
  have hsize : 0 + (bucket.ranges.map (·.size)).sum = bucket.size := by
    rw [Nat.zero_add, hcarries.size_eq_ranges]
  obtain ⟨bytes, hok, _, hbytes⟩ := @copyRanges_ok (d.hostMemory owner.1) _ _ bucket.ranges 0
    (fun _ => 0) hwithin hsize
  exact ⟨bytes, hcarries, hok, hbytes, fun e he => h.entry_room howner e (hes he)⟩

/-- What a worker cuts out of a planned bucket. -/
def cut (d : Deployment) (b : Rank × H2DBucket) : List Weight :=
  extractWeights ((d.fetch b.1 b.2).getD fun _ => 0) (toNamedTensor b.2.items 0)

/-- Wherever the bucket lies, the worker cuts the same tensors out of it. -/
theorem Fetched.extractWeights_eq {b : Rank × H2DBucket} {es : List Entry} {bytes buffer : Bytes}
    (h : Fetched d b es bytes) {start : Nat}
    (hholds : ∀ j < b.2.size, buffer (start + j) = bytes j) :
    extractWeights buffer (toNamedTensor b.2.items start) =
        es.map (Entry.weightIn (d.hostMemory b.1) (d.pool b.1)) ∧
      d.cut b = es.map (Entry.weightIn (d.hostMemory b.1) (d.pool b.1)) := by
  refine ⟨h.carries.extractWeights_eq ?_ h.room, ?_⟩
  · intro p idx place hp
    have hlt : p < b.2.size := by
      rw [h.carries.size_eq_ranges, ← length_rangeAddresses]
      exact (List.getElem?_eq_some_iff.mp hp).1
    rw [hholds p hlt]
    simpa using h.bucketAt p idx place hp
  · rw [cut, h.fetch_eq]
    exact h.carries.extractWeights_eq h.bucketAt h.room

/-- What is cut out of an owner's buckets are the owner's tensors. -/
theorem WellFormed.cut_bins (h : d.WellFormed) {owner : Rank × MemoryBufferMetaList}
    (howner : owner ∈ d.globalMetas) {buckets : List H2DBucket} {bins : List (List Entry)}
    (hcarries : List.Forall₂ Carries buckets bins)
    (hbuckets : buckets ⊆ ownerPlan d.bucketSize owner.2.memoryBufferMetasList)
    (hbins : bins.flatten ⊆ entries owner.2.memoryBufferMetasList) :
    buckets.flatMap (fun bucket => d.cut (owner.1, bucket)) =
      bins.flatten.map
        (Entry.weightIn (d.hostMemory owner.1) owner.2.memoryBufferMetasList) := by
  induction hcarries with
  | nil => rfl
  | @cons bucket bin buckets bins hhead _ ih =>
      obtain ⟨hbucket, hrest⟩ := List.cons_subset.mp hbuckets
      rw [List.flatten_cons] at hbins ⊢
      obtain ⟨hbin, hbins⟩ := List.append_subset.mp hbins
      obtain ⟨bytes, hfetched⟩ := h.fetched howner hbucket hhead hbin
      have hitself : ∀ j < bucket.size, bytes (0 + j) = bytes j := by simp
      have hcut := (hfetched.extractWeights_eq hitself).2
      rw [pool_eq h howner] at hcut
      rw [List.flatMap_cons, List.map_append, ih hrest hbins]
      exact congrArg (· ++ _) hcut

theorem WellFormed.cut_owned (h : d.WellFormed) : d.owned.flatMap d.cut = d.weights := by
  simp only [owned, weights, List.flatMap_assoc]
  apply List.flatMap_congr
  intro owner howner
  have hcarries := scanOwner_carries d.bucketSize owner.2.memoryBufferMetasList
  have hbins := nextFit_flatten d.bucketSize Entry.weight
    (entries owner.2.memoryBufferMetasList)
  have hcut := h.cut_bins howner hcarries (List.Subset.refl _)
    (by rw [hbins]; exact List.Subset.refl _)
  rw [hbins] at hcut
  rw [List.flatMap_map]
  exact hcut

/-! ## From the plan to the workers -/

variable {u : Update}

/-- The plan of the update is the deployment's. -/
theorem Runs.plan (hrun : d.Runs u) (h : d.WellFormed) :
    (u.buckets.map Prod.snd).Perm d.owned ∧
      (d.ranks = [] → ∀ x ∈ u.buckets, x.1 = x.2.1) := by
  obtain ⟨plan, hok, hperm, _, hself⟩ := h.plan_ok
  obtain rfl : plan = u.buckets := by
    simpa using hok.symm.trans hrun.plan_eq
  exact ⟨hperm, hself⟩

/-- A planned bucket carries tensors of its owner. -/
theorem WellFormed.owned_fetched (h : d.WellFormed) {b : Rank × H2DBucket} (hb : b ∈ d.owned) :
    ∃ es bytes, Fetched d b es bytes := by
  obtain ⟨owner, howner, hkey, hbucket⟩ := mem_owned hb
  obtain ⟨es, hes, hcarries⟩ := exists_of_forall₂
    (scanOwner_carries d.bucketSize owner.2.memoryBufferMetasList) hbucket
  have hsubset : es ⊆ entries owner.2.memoryBufferMetasList := by
    intro e he
    rw [← nextFit_flatten d.bucketSize Entry.weight (entries owner.2.memoryBufferMetasList)]
    exact List.mem_flatten.mpr ⟨es, hes, he⟩
  obtain ⟨bytes, hfetched⟩ := h.fetched howner hbucket hcarries hsubset
  obtain ⟨ownerRank, bucket⟩ := b
  obtain rfl : ownerRank = owner.1 := hkey
  exact ⟨es, bytes, hfetched⟩

/-- A rank's own bucket is one of its owner's, and in a broadcast the rank's own. -/
theorem Runs.own (hrun : d.Runs u) (h : d.WellFormed) {rank : Rank} {i : Nat}
    {b : Rank × H2DBucket} (hb : (receiverRankBuckets rank u.buckets)[i]? = some b) :
    b ∈ d.owned ∧ d.copyToBuffer u.buckets rank i = d.fetch b.1 b.2 := by
  obtain ⟨hperm, hself⟩ := hrun.plan h
  obtain ⟨x, hx, rfl⟩ := List.mem_map.mp (List.mem_of_getElem? hb)
  obtain ⟨hx, hreceiver⟩ := List.mem_filter.mp hx
  refine ⟨hperm.mem_iff.mp (List.mem_map_of_mem hx), ?_⟩
  simp only [copyToBuffer, hb]
  split
  · rename_i hempty
    rw [← hself (List.isEmpty_iff.mp hempty) x hx, of_decide_eq_true hreceiver]
  · rfl

/-- `_copy_to_buffer` does not raise. -/
theorem Runs.copiesSucceed (hrun : d.Runs u) (h : d.WellFormed) : u.CopiesSucceed := by
  intro rank _ i hraises
  rw [hrun.copy_eq] at hraises
  cases hb : (receiverRankBuckets rank u.buckets)[i]? with
  | none => simp [copyToBuffer, hb] at hraises
  | some b =>
      obtain ⟨hmem, hcopy⟩ := hrun.own h hb
      obtain ⟨_, _, hfetched⟩ := h.owned_fetched hmem
      rw [hcopy, hfetched.fetch_eq] at hraises
      cases hraises

/-- What a worker cuts out of a buffer that holds bucket `g`. -/
theorem Runs.holds_cut (hrun : d.Runs u) (h : d.WellFormed) {g : Nat} (hg : g < u.rounds)
    {buffer : Bytes} (hholds : Holds u g buffer) :
    ∃ b, (u.turn g).planned u.buckets = some b ∧
      extractWeights buffer (u.metadata g) = d.cut b.2 := by
  obtain ⟨own, hown, hbucket⟩ := Option.map_eq_some_iff.mp (turnsOf_own (turn_mem u hg))
  obtain ⟨hmem, hcopy⟩ := hrun.own h hown
  obtain ⟨es, bytes, hfetched⟩ := h.owned_fetched hmem
  refine ⟨((u.turn g).receiver, own), by simp [Turn.planned, hown], ?_⟩
  have hcontent : u.content g = bytes := by
    rw [content, hrun.copy_eq, hcopy, hfetched.fetch_eq]
    rfl
  have hread : ∀ j < own.2.size, buffer (u.start g + j) = bytes j := by
    rw [← hcontent, hbucket]
    exact hholds
  obtain ⟨hextract, hcut⟩ := hfetched.extractWeights_eq hread
  rw [metadata, ← hbucket, hextract, hcut]

/-- A worker that has been handed every bucket has been handed every tensor, each
once. -/
theorem Runs.handed_perm (hrun : d.Runs u) (h : d.WellFormed) {x : RankState}
    (hinv : HandedInv u x) (hlength : x.worker.handed.length = u.rounds) :
    (x.worker.handed.flatten).Perm d.weights := by
  let cutOf : Option Planned → List Weight := fun b => (b.map fun b => d.cut b.2).getD []
  have hhanded : x.worker.handed = u.turns.map (cutOf ∘ Turn.planned u.buckets) := by
    apply List.ext_getElem?
    intro g
    rcases Nat.lt_or_ge g u.rounds with hg | hge
    · obtain ⟨weights, hget⟩ : ∃ weights, x.worker.handed[g]? = some weights :=
        ⟨_, List.getElem?_eq_getElem (by omega)⟩
      obtain ⟨_, buffer, hholds, rfl⟩ := hinv g weights hget
      obtain ⟨b, hplanned, hcut⟩ := hrun.holds_cut h hg hholds
      have hturn : u.turns[g]? = some (u.turn g) := by
        rw [turn_eq_getElem u hg]
        exact List.getElem?_eq_getElem hg
      rw [hget, hcut, List.getElem?_map, hturn]
      simp [cutOf, hplanned]
    · have hend : (u.turns.map (cutOf ∘ Turn.planned u.buckets)).length ≤ g := by
        rw [List.length_map]
        exact hge
      rw [List.getElem?_eq_none (by omega), List.getElem?_eq_none hend]
  calc x.worker.handed.flatten
      = (u.turns.map (Turn.planned u.buckets)).flatMap cutOf := by
        rw [hhanded, List.flatMap_def, List.map_map]
    _ |>.Perm ((u.buckets.map some).flatMap cutOf) := (turnsOf_perm u.buckets).flatMap_right _
    _ = (u.buckets.map Prod.snd).flatMap d.cut := by
        simp [cutOf, List.flatMap_map]
    _ |>.Perm (d.owned.flatMap d.cut) := (hrun.plan h).1.flatMap_right _
    _ = d.weights := h.cut_owned

/-- Every slice of a bucket's tensors lies inside the shared buffer. -/
theorem Runs.metadata_inside (hrun : d.Runs u) (h : d.WellFormed) {g : Nat} (hg : g < u.rounds)
    {item : NamedTensor} (hitem : item ∈ u.metadata g) :
    item.offset + item.dtype.itemsize * numel item.shape ≤ 2 * d.bucketSize := by
  obtain ⟨own, hown, hbucket⟩ := Option.map_eq_some_iff.mp (turnsOf_own (turn_mem u hg))
  obtain ⟨es, bytes, hfetched⟩ := h.owned_fetched (hrun.own h hown).1
  obtain ⟨param, hparam, hdtype, hshape, hle⟩ := toNamedTensor_extent hitem
  have hroom : param.nbytes ≤ param.alignedSize := by
    rw [← hbucket, hfetched.carries.items_eq] at hparam
    obtain ⟨e, he, rfl⟩ := List.mem_map.mp hparam
    exact hfetched.room e he
  have hsize : totalSize (u.turn g).bucket.items ≤ u.bucketSize := by
    rw [← hbucket, ← hfetched.carries.size_eq_items, hbucket]
    exact turn_size_le u g
  have hstart : u.start g ≤ u.bucketSize := by
    rw [start]
    rcases Nat.mod_two_eq_zero_or_one g with hpar | hpar <;> simp [hpar]
  rw [hdtype, hshape]
  have hbytes : param.dtype.itemsize * numel param.shape ≤ param.alignedSize := hroom
  have heq := hrun.bucketSize_eq
  omega

/-- Every bucket has bytes and fits the bucket size. -/
theorem WellFormed.owned_size_le (h : d.WellFormed) {b : Rank × H2DBucket} (hb : b ∈ d.owned) :
    b.2.size ≤ d.bucketSize := by
  obtain ⟨owner, howner, _, hbucket⟩ := mem_owned hb
  obtain ⟨bin, hbin, hcarries⟩ := exists_of_forall₂
    (scanOwner_carries d.bucketSize owner.2.memoryBufferMetasList) hbucket
  rw [hcarries.size_eq]
  exact ((h.input.plannable owner howner).bin_load bin hbin).2

/-- A well-formed deployment leads to an update. -/
theorem WellFormed.exists_runs (h : d.WellFormed) : ∃ u, d.Runs u := by
  obtain ⟨plan, hok, hperm, hmem, _⟩ := h.plan_ok
  have hne : plan ≠ [] := by
    rintro rfl
    obtain ⟨owner, rest, hmetas⟩ := List.exists_cons_of_ne_nil h.metas_ne
    have := hperm.symm.length_eq
    simp [owned, hmetas, ownerPlan] at this
  refine ⟨
    { ranks := d.participants
      bucketSize := d.bucketSize
      disableH2dBuffer := d.disableH2dBuffer
      buckets := plan
      env := { Environment.faultless with copyToBuffer := d.copyToBuffer plan }
      buckets_ne := hne
      receiver_mem := hmem
      size_le := fun b hb =>
        h.owned_size_le (hperm.mem_iff.mp (List.mem_map_of_mem hb)) }, ?_⟩
  exact
    { ranks_eq := rfl
      bucketSize_eq := rfl
      disable_eq := rfl
      plan_eq := hok
      copy_eq := rfl
      faultFree :=
        { attach := fun _ _ => rfl
          run := fun _ _ _ => rfl
          release := fun _ _ => rfl
          postHook := fun _ _ => rfl
          request := fun _ _ => ⟨false, rfl⟩ } }

/-- **End-to-end delivery.**  A well-formed deployment leads to an update, and every
such update hands every tensor of every owner to every worker, each once and with
the bytes it has in its owner's memory. -/
theorem delivers (d : Deployment) (h : d.WellFormed) :
    (∃ u, d.Runs u) ∧ ∀ u, d.Runs u → d.Delivers u := by
  refine ⟨h.exists_runs, fun u hrun => ?_⟩
  have hcopies := hrun.copiesSucceed h
  have honly := hrun.faultFree.onlyWorkersFail hcopies
  constructor
  · intro run hstart
    exact (machine_descends u).no_infinite_run run (hstart ▸ Machine.Reachable.init)
  · intro s hs hfinal r hr
    have hpc := final_left hs hfinal honly.copies honly.start honly.quiet r hr
    rw [hrun.faultFree.outcome] at hpc
    refine ⟨hpc, hrun.handed_perm h (handedInv hcopies hs r hr) ?_⟩
    -- a worker whose server has returned has replied to everything
    have hinv := rankInv hs r hr
    have hposition := hinv.worker.position
    rw [hinv.returned_worker (by rw [hpc]; rfl)] at hposition
    have hlength := hinv.worker.handed
    have hreplies := hposition.2.1
    omega
  · intro s hs r hr payload hpc item hitem
    obtain ⟨hlt, rfl, _⟩ := holds_while_run hcopies hs hr hpc
    exact hrun.metadata_inside h hlt hitem

/-- Rank 0 owns two buffers, rank 1 a third; both ranks fetch what they receive.  The
second bucket of rank 0 takes the end of one buffer and the beginning of the other. -/
def twoOwners : Deployment where
  globalMetas :=
    [(0, ⟨some "host0:1",
        [⟨[⟨"a", .uint8, [7], 8⟩, ⟨"b", .float16, [2], 4⟩], 1024, 12⟩,
          ⟨[⟨"c", .float32, [1], 4⟩], 2048, 4⟩], "mlx5_0"⟩),
      (1, ⟨some "host0:2", [⟨[⟨"d", .uint8, [6], 8⟩], 1024, 8⟩], "mlx5_1"⟩)]
  worldSize := 2
  ranks := [0, 1]
  localTopo := [("mlx5_0@host0", [0]), ("mlx5_1@host0", [1])]
  remoteTopo := [("mlx5_0@host0", [0]), ("mlx5_1@host0", [1])]
  bucketSize := 8
  disableH2dBuffer := false
  hostMemory rank a := UInt8.ofNat (rank + a)

theorem delivers_twoOwners :
    (∃ u, twoOwners.Runs u) ∧ ∀ u, twoOwners.Runs u → twoOwners.Delivers u :=
  delivers twoOwners
    { input :=
        { keys_nodup := by decide
          plannable := by
            intro owner howner
            rcases List.mem_cons.mp howner with rfl | howner
            · exact ⟨by decide, by decide⟩
            · obtain rfl := List.mem_singleton.mp howner
              exact ⟨by decide, by decide⟩ }
      metas_ne := by decide
      tiles := by decide
      room := by decide
      broadcast := by decide
      p2p := by decide }

end Deployment

end CheckpointEngine
