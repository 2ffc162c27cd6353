/-
  `Launch.Inference`: which workers an update asks for, `req_inference` in
  `examples/update.py` and `update_func` in `checkpoint_engine/api.py`.

  Every rank that has bound its socket runs the request function with the addresses of
  all ranks.  With `req_inference` the first rank of an inference instance asks for all
  workers of the instance, whether or not their ranks take part.
-/
import CheckpointEngine.Foundation.Chunks
import CheckpointEngine.Foundation.Override
import CheckpointEngine.Update.Addresses

set_option autoImplicit false

namespace CheckpointEngine.Launch

open CheckpointEngine.Foundation
open CheckpointEngine.Update (AddressMove AddressState Bound addresses addressInv bindZmqSocket
  twoDevices zmqHandle)

/-! ## Requests -/

/-- `dict(socket_paths)`. -/
def dictOf (socketPaths : List (String × String)) : List (String × String) :=
  socketPaths.foldl (fun dict entry => setItem Prod.fst entry dict) []

/-- The first rank of the inference instance of a rank. -/
def source (inferenceParallelSize : Nat) (rank : Rank) : Rank :=
  rank / inferenceParallelSize * inferenceParallelSize

/-- `req_func` of `req_inference`: the addresses that are sent, if any. -/
def reqInference (inferenceParallelSize : Nat) (rank : Rank)
    (socketPaths : List (String × String)) : Option (List (String × String)) :=
  let src := source inferenceParallelSize rank
  if rank = src then some (dictOf (slice src (src + inferenceParallelSize) socketPaths)) else none

/-- `xs[i]`, or `none` for an `IndexError`. -/
def pyIndex {α : Type} (xs : List α) (i : Int) : Option α :=
  if 0 ≤ i then xs[i.toNat]? else if -(xs.length : Int) ≤ i then xs[(xs.length + i).toNat]? else none

/-- `UpdateRequest`, without what is passed on to `httpx`. -/
structure UpdateRequest where
  ranks : List Int
  updateUrl : Option String
  inferenceGroupRanks : List Int

/-- `update_func`: the addresses that are sent, if any; an `IndexError` is `none`. -/
def updateFunc (req : UpdateRequest) (socketPaths : List (String × String)) :
    Option (Option (List (String × String))) :=
  if req.updateUrl = none then some none
  else if req.inferenceGroupRanks = [] then some (some (dictOf socketPaths))
  else (req.inferenceGroupRanks.mapM (pyIndex socketPaths)).map fun paths => some (dictOf paths)

/-! ## What is asked for -/

theorem mem_dictOf {socketPaths : List (String × String)} {entry : String × String}
    (h : entry ∈ dictOf socketPaths) : entry ∈ socketPaths := by
  have hfold : ∀ entries dict : List (String × String), (dict.map Prod.fst).Nodup →
      entry ∈ entries.foldl (fun dict entry => setItem Prod.fst entry dict) dict →
        entry ∈ dict ∨ entry ∈ entries := by
    intro entries
    induction entries with
    | nil => exact fun dict _ hmem => .inl hmem
    | cons first rest ih =>
        intro dict hkeys hmem
        cases ih _ (setItem_keys_nodup hkeys) hmem with
        | inl hset =>
            cases (mem_setItem hkeys).mp hset with
            | inl heq => exact .inr (heq ▸ List.mem_cons_self)
            | inr hold => exact .inl hold.1
        | inr hrest => exact .inr (List.mem_cons_of_mem _ hrest)
  exact (hfold socketPaths [] List.nodup_nil h).resolve_left List.not_mem_nil

/-- A device that has an address is sent with an address. -/
theorem mem_keys_dictOf {socketPaths : List (String × String)} {uid : String} :
    uid ∈ (dictOf socketPaths).map Prod.fst ↔ uid ∈ socketPaths.map Prod.fst := by
  have hfold : ∀ entries dict : List (String × String),
      uid ∈ (entries.foldl (fun dict entry => setItem Prod.fst entry dict) dict).map Prod.fst ↔
        uid ∈ dict.map Prod.fst ∨ uid ∈ entries.map Prod.fst := by
    intro entries
    induction entries with
    | nil => simp
    | cons first rest ih =>
        intro dict
        rw [List.foldl_cons, ih, mem_keys_setItem, List.map_cons, List.mem_cons, or_assoc,
          or_left_comm]
  rw [dictOf, hfold, List.map_nil]
  exact or_iff_right List.not_mem_nil

theorem mem_slice_range {start stop n k : Nat} :
    k ∈ slice start stop (List.range n) ↔ start ≤ k ∧ k < stop ∧ k < n := by
  simp only [slice, List.mem_iff_getElem?, List.getElem?_take, List.getElem?_drop,
    Option.ite_none_right_eq_some, List.getElem?_eq_some_iff, List.length_range,
    List.getElem_range, exists_prop]
  constructor
  · intro h
    obtain ⟨i, hi, hlt, heq⟩ := h
    omega
  · intro h
    exact ⟨k - start, by omega, by omega, by omega⟩

theorem source_le {n : Nat} (rank : Rank) : source n rank ≤ rank := Nat.div_mul_le_self rank n

/-- The ranks of an instance are those from its first one on. -/
theorem source_eq_iff {n : Nat} (hn : 0 < n) {rank first : Rank} (hfirst : source n first = first) :
    source n rank = first ↔ first ≤ rank ∧ rank < first + n := by
  constructor
  · intro h
    rw [← h]
    exact ⟨source_le rank, Nat.lt_div_mul_add hn⟩
  · intro h
    obtain ⟨hle, hlt⟩ := h
    have hquotient : rank / n = first / n := by
      apply Nat.div_eq_of_lt_le
      · exact hfirst.trans_le hle
      · rw [Nat.succ_mul]
        exact hlt.trans_le (Nat.add_le_add_right hfirst.symm.le n)
    rw [source, hquotient]
    exact hfirst

theorem source_source {n : Nat} (hn : 0 < n) (rank : Rank) :
    source n (source n rank) = source n rank := by
  rw [source, source, Nat.mul_div_cancel _ hn]

theorem mem_of_pyIndex {α : Type} {xs : List α} {i : Int} {x : α} (h : pyIndex xs i = some x) :
    x ∈ xs := by
  unfold pyIndex at h
  split at h
  · exact List.mem_of_getElem? h
  · split at h
    · exact List.mem_of_getElem? h
    · cases h

theorem mem_of_mapM_pyIndex {α : Type} {xs ys : List α} {indices : List Int}
    (h : indices.mapM (pyIndex xs) = some ys) : ∀ y ∈ ys, y ∈ xs := by
  induction indices generalizing ys with
  | nil =>
      obtain rfl : [] = ys := Option.some.inj h
      exact fun y hy => absurd hy List.not_mem_nil
  | cons i rest ih =>
      rw [List.mapM_cons] at h
      obtain ⟨x, hx, h⟩ := Option.bind_eq_some_iff.mp h
      obtain ⟨others, hothers, h⟩ := Option.bind_eq_some_iff.mp h
      obtain rfl : x :: others = ys := Option.some.inj h
      exact List.forall_mem_cons.mpr ⟨mem_of_pyIndex hx, ih hothers⟩

/-- What is sent with either request function is among the addresses of the server. -/
theorem mem_of_request {n : Nat} {rank : Rank} {socketPaths request : List (String × String)}
    (h : reqInference n rank socketPaths = some request ∨
      ∃ req, updateFunc req socketPaths = some (some request)) :
    ∀ entry ∈ request, entry ∈ socketPaths := by
  intro entry hentry
  cases h with
  | inl h =>
      obtain ⟨-, h⟩ := Option.ite_none_right_eq_some.mp h
      obtain rfl := Option.some.inj h
      exact mem_of_mem_slice (mem_dictOf hentry)
  | inr h =>
      obtain ⟨req, h⟩ := h
      unfold updateFunc at h
      split at h
      · cases h
      · split at h
        · obtain rfl := Option.some.inj (Option.some.inj h)
          exact mem_dictOf hentry
        · obtain ⟨paths, hpaths, h⟩ := Option.map_eq_some_iff.mp h
          obtain rfl := Option.some.inj h
          exact mem_of_mapM_pyIndex hpaths entry (mem_dictOf hentry)

/-! ## Workers and servers -/

/-- A server that has bound knows all ranks. -/
def Informed (deviceUuid : Rank → String) (worldSize : Nat) (s : AddressState) : Prop :=
  ∀ b ∈ s.bound, b.socketPaths.map Prod.fst = (List.range worldSize).map deviceUuid

/-- The rank has bound its socket in the update. -/
def Serves (s : AddressState) (update : Nat) (rank : Rank) : Prop :=
  ∃ b ∈ s.bound, b.update = update ∧ b.rank = rank

/-- In the update the rank `asker` asks for the worker of `rank`. -/
def Asks (deviceUuid : Rank → String) (n : Nat) (s : AddressState) (update : Nat)
    (asker rank : Rank) : Prop :=
  ∃ b ∈ s.bound, b.update = update ∧ b.rank = asker ∧
    ∃ request, reqInference n asker b.socketPaths = some request ∧
      deviceUuid rank ∈ request.map Prod.fst

section Matching

variable {deviceUuid : Rank → String} {worldSize n : Nat} {s : AddressState}

/-- What a server says of another in the same update is where that one listens. -/
theorem path_of_entry (h : (addresses deviceUuid).Reachable s) {b other : Bound}
    (hb : b ∈ s.bound) (hother : other ∈ s.bound) (hupdate : other.update = b.update)
    {entry : String × String} (hentry : entry ∈ b.socketPaths)
    (hdevice : entry.1 = deviceUuid other.rank) : entry.2 = other.path := by
  have hinv := addressInv h
  obtain ⟨hvalue, -, uids, hrecord⟩ := hinv.record b hb
  obtain ⟨hotherValue, -, hotherUids⟩ := hinv.record other hother
  rw [hupdate, hvalue] at hotherValue
  rw [hrecord] at hentry
  obtain ⟨uid, -, rfl⟩ := List.mem_map.mp hentry
  obtain rfl : uid = deviceUuid other.rank := hdevice
  obtain ⟨_, hotherRecord⟩ := hotherUids
  have hpath : other.path = zmqHandle (deviceUuid other.rank) other.value :=
    congrArg Bound.path hotherRecord
  rw [hpath, Option.some.inj hotherValue]

/-- The devices that `req_inference` names are those of the instance. -/
theorem mem_reqInference (hn : 0 < n)
    (hinj : ∀ rank < worldSize, ∀ other < worldSize,
      deviceUuid rank = deviceUuid other → rank = other)
    {asker rank : Rank} (hrank : rank < worldSize) {socketPaths : List (String × String)}
    (hpaths : socketPaths.map Prod.fst = (List.range worldSize).map deviceUuid) :
    (∃ request, reqInference n asker socketPaths = some request ∧
      deviceUuid rank ∈ request.map Prod.fst) ↔ asker = source n rank := by
  have hnamed : source n asker = asker →
      (deviceUuid rank ∈ (dictOf (slice asker (asker + n) socketPaths)).map Prod.fst ↔
        source n rank = asker) := by
    intro hasker
    rw [mem_keys_dictOf, ← slice_map, hpaths, slice_map, List.mem_map,
      source_eq_iff hn hasker]
    constructor
    · intro hmem
      obtain ⟨other, hother, heq⟩ := hmem
      obtain ⟨hle, hlt, hworld⟩ := mem_slice_range.mp hother
      rw [hinj rank hrank other hworld heq.symm]
      exact ⟨hle, hlt⟩
    · intro hmem
      exact ⟨rank, mem_slice_range.mpr ⟨hmem.1, hmem.2, hrank⟩, rfl⟩
  constructor
  · intro h
    obtain ⟨request, hrequest, hmem⟩ := h
    obtain ⟨hasker, hrequest⟩ := Option.ite_none_right_eq_some.mp hrequest
    obtain rfl := Option.some.inj hrequest
    rw [← hasker] at hmem
    exact ((hnamed hasker.symm).mp hmem).symm
  · intro hasker
    have hself : source n asker = asker := by
      rw [hasker, source_source hn]
    refine ⟨_, if_pos hself.symm, ?_⟩
    rw [hself]
    exact (hnamed hself).mpr hasker.symm

theorem asks_iff (hinformed : Informed deviceUuid worldSize s) (hn : 0 < n)
    (hinj : ∀ rank < worldSize, ∀ other < worldSize,
      deviceUuid rank = deviceUuid other → rank = other)
    {update : Nat} {asker rank : Rank} (hrank : rank < worldSize) :
    Asks deviceUuid n s update asker rank ↔ Serves s update asker ∧ asker = source n rank := by
  constructor
  · intro h
    obtain ⟨b, hb, hupdate, hasker, hrequest⟩ := h
    exact ⟨⟨b, hb, hupdate, hasker⟩, (mem_reqInference hn hinj hrank (hinformed b hb)).mp hrequest⟩
  · intro h
    obtain ⟨⟨b, hb, hupdate, hasker⟩, hsource⟩ := h
    exact ⟨b, hb, hupdate, hasker,
      (mem_reqInference hn hinj hrank (hinformed b hb)).mpr hsource⟩

end Matching

/-- In any history of servers: whatever a request says of a device of the same update is
where the server of the device listens; a worker is asked for by the first rank of its
instance, if that one takes part, and by no other; so all workers that are asked for have a
server, and all servers a worker, exactly if every rank does what the first rank of its
instance does. -/
theorem requests_meet_servers {deviceUuid : Rank → String} {worldSize n : Nat}
    {s : AddressState} (h : (addresses deviceUuid).Reachable s)
    (hinformed : Informed deviceUuid worldSize s) (hn : 0 < n)
    (hinj : ∀ rank < worldSize, ∀ other < worldSize,
      deviceUuid rank = deviceUuid other → rank = other) :
    (∀ b ∈ s.bound, ∀ request,
      (reqInference n b.rank b.socketPaths = some request ∨
        ∃ req, updateFunc req b.socketPaths = some (some request)) →
      ∀ entry ∈ request, ∀ other ∈ s.bound, other.update = b.update →
        entry.1 = deviceUuid other.rank → entry.2 = other.path) ∧
      (∀ update, ∀ rank < worldSize, ∀ asker, Asks deviceUuid n s update asker rank ↔
        Serves s update asker ∧ asker = source n rank) ∧
      ∀ update, (∀ rank < worldSize,
          (∃ asker, Asks deviceUuid n s update asker rank) ↔ Serves s update rank) ↔
        ∀ rank < worldSize, Serves s update (source n rank) ↔ Serves s update rank := by
  refine ⟨?_, fun update rank hrank asker => asks_iff hinformed hn hinj hrank, fun update => ?_⟩
  · intro b hb request hrequest entry hentry other hother hupdate hdevice
    exact path_of_entry h hb hother hupdate (mem_of_request hrequest entry hentry) hdevice
  · refine forall₂_congr fun rank hrank => ?_
    have hasked : (∃ asker, Asks deviceUuid n s update asker rank) ↔
        Serves s update (source n rank) := by
      simp only [asks_iff hinformed hn hinj hrank, exists_eq_right]
    rw [hasked]

theorem serves_iff_mem {s : AddressState} {update : Nat} {rank : Rank} :
    Serves s update rank ↔ (update, rank) ∈ s.bound.map fun b => (b.update, b.rank) := by
  simp only [Serves, List.mem_map, Prod.mk.injEq]

/-- Two ranks of one instance update together, then the second one alone. -/
def togetherThenAlone : List AddressMove :=
  [.reduce [0, 1] (fun _ => 0), .takeOver 0, .takeOver 1, .bind 0 ["GPU-0", "GPU-1"],
    .bind 1 ["GPU-0", "GPU-1"], .reduce [1] (fun _ => 0), .takeOver 1,
    .bind 1 ["GPU-0", "GPU-1"]]

/-- In the second update the server waits for a worker that nobody asks for. -/
theorem requests_meet_servers_togetherThenAlone :
    ∃ s : AddressState, Serves s 1 1 ∧
      (∀ rank < 2, (∃ asker, Asks twoDevices 2 s 0 asker rank) ↔ Serves s 0 rank) ∧
      ¬ ∀ rank < 2, (∃ asker, Asks twoDevices 2 s 1 asker rank) ↔ Serves s 1 rank := by
  obtain ⟨s, hreachable, hbound, hinformed⟩ := @Machine.Reachable.of_run _ _
    (addresses twoDevices)
    (fun s => (s.bound.map fun b => (b.update, b.rank)) = [(0, 0), (0, 1), (1, 1)] ∧
      ∀ b ∈ s.bound, b.socketPaths.map Prod.fst = (List.range 2).map twoDevices) _
    togetherThenAlone (by decide)
  obtain ⟨-, -, hmatch⟩ :=
    @requests_meet_servers twoDevices 2 2 s hreachable hinformed (by decide) (by decide)
  refine ⟨s, ?_⟩
  simp only [serves_iff_mem, hbound] at hmatch ⊢
  refine ⟨by decide, (hmatch 0).mpr (by decide), fun hall => ?_⟩
  exact absurd ((hmatch 1).mp hall) (by decide)

end CheckpointEngine.Launch
