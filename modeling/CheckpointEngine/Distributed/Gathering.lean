/-
  `Distributed.Gathering`: `all_gather_object` of the vLLM backends, with the bytes it
  moves.

  The members of a communicator call it together, so their calls are followed side by
  side, from one collective to the next.  Memory that nobody has written holds anything,
  and each member has memory of its own.
-/
import CheckpointEngine.Distributed.World
import CheckpointEngine.Foundation.Fallible
import Mathlib.Algebra.BigOperators.Group.List.Lemmas

set_option autoImplicit false

namespace CheckpointEngine.Distributed

open CheckpointEngine.Foundation
open CheckpointEngine.Foundation.Command

/-- What `all_gather_object` raises. -/
inductive GatherError where
  | backend (error : BackendError)
  | valueError (message : String)
  | runtimeError (message : String)
  | indexError (message : String)
  | unpicklingError (message : String)
  deriving DecidableEq, Repr

/-- `pickle`, where loading inverts dumping. -/
structure Pickle (Obj : Type) where
  dump : Obj → List UInt8
  load : List UInt8 → Except GatherError Obj
  load_dump : ∀ object, load (dump object) = .ok object

/-- `comm.all_gather`: one input of each member, in the order of their ranks in the group,
goes into the output of each.  Where they have one length and there is room for all of
them, they stand there one after the other. -/
structure Gatherer where
  allGather : {α : Type} → List (List α) → List α → List α
  length_allGather : ∀ {α : Type} (inputs : List (List α)) (out : List α),
    (allGather inputs out).length = out.length
  consecutive : ∀ {α : Type} (n : Nat) (inputs : List (List α)) (out : List α),
    (∀ input ∈ inputs, input.length = n) → inputs.length * n ≤ out.length →
      allGather inputs out = inputs.flatten ++ out.drop (inputs.length * n)

/-- What a member finds in the memory that it is given: for the sizes, behind its own
bytes, and for the bytes of all. -/
structure Uninitialised where
  sizes : Nat → Int
  input : Nat → UInt8
  output : Nat → UInt8

/-- A call of `all_gather_object` by one member. -/
structure GatherCall (Obj : Type) where
  self : Instance
  group : Option CommGroup
  objectList : List Obj
  object : Obj
  memory : Uninitialised

/-! ## `_common_all_gather_object` -/

section Source

variable {Obj : Type}

/-- `torch.empty`. -/
def empty {α : Type} (memory : Nat → α) (n : Nat) : List α := (List.range n).map memory

/-- `_object_to_tensor`: the bytes, and their number. -/
def objectToTensor (pickle : Pickle Obj) (object : Obj) : List UInt8 × List Int :=
  let byteTensor := pickle.dump object
  (byteTensor, [(byteTensor.length : Int)])

/-- `buf[:size]`.  A negative size counts from the end. -/
def upTo (buf : List UInt8) (size : Int) : List UInt8 :=
  if 0 ≤ size then buf.take size.toNat else buf.take (buf.length - (-size).toNat)

/-- `_tensor_to_object`. -/
def tensorToObject (pickle : Pickle Obj) (tensor : List UInt8) (tensorSize : Int) :
    Except GatherError Obj :=
  pickle.load (upTo tensor tensorSize)

/-- `max(object_size_list)`. -/
def maxObjectSize (sizes : List Int) : Except GatherError Int :=
  match sizes.max? with
  | none => .error (.valueError "max() iterable argument is empty")
  | some size => .ok size

/-- `tensor.resize_(size)`: what is added is not initialised. -/
def resize (memory : Nat → UInt8) (tensor : List UInt8) (size : Int) :
    Except GatherError (List UInt8) :=
  if size < 0 then
    .error (.runtimeError "Trying to create tensor with negative dimension")
  else
    .ok (tensor.take size.toNat ++ empty memory (size.toNat - tensor.length))

/-- `list[i] = x`. -/
def assign {α : Type} (list : List α) (i : Nat) (x : α) : Except GatherError (List α) :=
  if i < list.length then .ok (list.set i x)
  else .error (.indexError "list assignment index out of range")

/-- The slices of the output, one of `size` bytes for each rank of the world. -/
def outputTensors (coalesced : List UInt8) (size worldSize : Nat) : List (List UInt8) :=
  (List.range worldSize).map fun i => (coalesced.take (size * (i + 1))).drop (size * i)

/-- One turn of the loop that fills a list place by place. -/
def fill {ι α : Type} (read : ι → Except GatherError α) (list : List α) (entry : ι × Nat) :
    Except GatherError (List α) := do
  assign list entry.2 (← read entry.1)

namespace GatherCall

variable (comm : Gatherer) (pickle : Pickle Obj) (call : GatherCall Obj)

/-- The assertions before the first collective. -/
def enter : Except GatherError Unit :=
  match (requireInitialized >>= fun _ => enterGroup call.group none) call.self with
  | .ok _ _ => .ok ()
  | .error error _ => .error (.backend error)

/-- `world_size`. -/
def worldSize : Nat := call.self.worldSize.toNat

/-- `object_sizes_tensor`, once the members have exchanged their sizes. -/
def objectSizes (localSizes : List (List Int)) : List Int :=
  comm.allGather localSizes (empty call.memory.sizes call.worldSize)

/-- `input_tensor`, as it goes into the second collective. -/
def inputTensor (sizes : List Int) : Except GatherError (List UInt8) := do
  resize call.memory.input (objectToTensor pickle call.object).1 (← maxObjectSize sizes)

/-- `object_list`, filled from what the second collective brings. -/
def filledList (sizes : List Int) (inputs : List (List UInt8)) :
    Except GatherError (List Obj) := do
  let maxSize := (← maxObjectSize sizes).toNat
  let coalesced :=
    comm.allGather inputs (empty call.memory.output (maxSize * call.worldSize))
  let tensors := outputTensors coalesced maxSize call.worldSize
  (tensors.zip sizes).zipIdx.foldlM
    (fill fun entry => tensorToObject pickle entry.1 entry.2) call.objectList

end GatherCall

/-- `all_gather_object`, called by every member of a communicator: the lists that they are
left with.  A collective ends for none of them unless all of them come to it. -/
def gatherObjects (comm : Gatherer) (pickle : Pickle Obj) (calls : List (GatherCall Obj)) :
    Except GatherError (List (List Obj)) := do
  calls.forM GatherCall.enter
  let localSizes := calls.map fun call => (objectToTensor pickle call.object).2
  let inputs ← calls.mapM fun call =>
    call.inputTensor pickle (call.objectSizes comm localSizes)
  calls.mapM fun call => call.filledList comm pickle (call.objectSizes comm localSizes) inputs

end Source

/-! ## Lists filled place by place -/

section Filling

variable {ι α : Type} {read : ι → Except GatherError α}

/-- Where every place is read, the list holds what was read. -/
theorem fill_all {entries : List ι} {objects : List α} {k : Nat} {list : List α}
    (hread : List.Forall₂ (fun entry object => read entry = .ok object) entries objects)
    (hlength : list.length = k + entries.length) :
    (entries.zipIdx k).foldlM (fill read) list = .ok (list.take k ++ objects) := by
  induction hread generalizing k list with
  | nil =>
      have htake : list.take k = list := List.take_of_length_le (Nat.le_of_eq hlength)
      rw [List.append_nil, htake]
      rfl
  | @cons entry object entries objects hentry _ ih =>
      have hk : k < list.length := by
        rw [hlength, List.length_cons]
        omega
      have hlength' : (list.set k object).length = k + 1 + entries.length := by
        rw [List.length_set, hlength, List.length_cons, Nat.add_right_comm, Nat.add_assoc]
      have htake : (list.set k object).take (k + 1) = list.take k ++ [object] := by
        rw [List.take_add_one, List.take_set_of_le (Nat.le_refl k), List.getElem?_set_self hk]
        rfl
      have hturn : fill read list (entry, k) = .ok (list.set k object) := by
        rw [fill, hentry]
        exact if_pos hk
      rw [List.zipIdx_cons, List.foldlM_cons, hturn]
      change (entries.zipIdx (k + 1)).foldlM (fill read) (list.set k object) = _
      rw [ih hlength', htake, List.append_assoc, List.singleton_append]

/-- A list that has been filled had a place for every entry. -/
theorem length_le_of_fill {entries : List ι} {k : Nat} {list filled : List α}
    (hk : k ≤ list.length)
    (h : (entries.zipIdx k).foldlM (fill read) list = .ok filled) :
    k + entries.length ≤ list.length := by
  induction entries generalizing k list with
  | nil => exact hk
  | cons entry entries ih =>
      rw [List.zipIdx_cons, List.foldlM_cons] at h
      obtain ⟨next, hturn, hrest⟩ := bind_eq_ok.mp h
      obtain ⟨object, _, hassign⟩ := bind_eq_ok.mp hturn
      rw [assign] at hassign
      split at hassign
      · rename_i hlt
        obtain rfl := Except.ok.inj hassign
        have := ih (by rw [List.length_set]; exact hlt) hrest
        rw [List.length_set] at this
        rw [List.length_cons]
        omega
      · cases hassign

end Filling

/-! ## What the collectives bring -/

/-- The slices of inputs of one length that stand one after the other are the inputs. -/
theorem outputTensors_flatten {inputs : List (List UInt8)} {n : Nat}
    (h : ∀ input ∈ inputs, input.length = n) :
    outputTensors inputs.flatten n inputs.length = inputs := by
  have hlengths : inputs.map List.length = List.replicate inputs.length n :=
    List.eq_replicate_iff.mpr ⟨List.length_map _, by simpa using h⟩
  have hsum : ∀ i, i ≤ inputs.length → ((inputs.map List.length).take i).sum = n * i := by
    intro i hi
    rw [hlengths, List.take_replicate, List.sum_replicate_nat, Nat.min_eq_left hi, Nat.mul_comm]
  apply List.ext_getElem
  · rw [outputTensors, List.length_map, List.length_range]
  · intro i _ hi
    have hslice := inputs.drop_take_succ_flatten_eq_getElem i hi
    rw [hsum (i + 1) hi, hsum i (Nat.le_of_lt hi)] at hslice
    simp only [outputTensors, List.getElem_map, List.getElem_range, hslice]

/-- A tensor made longer. -/
def padded (memory : Nat → UInt8) (size : Nat) (tensor : List UInt8) : List UInt8 :=
  tensor ++ empty memory (size - tensor.length)

section Padding

variable {memory : Nat → UInt8} {tensor : List UInt8} {size : Nat}

theorem length_empty {α : Type} (memory : Nat → α) (n : Nat) : (empty memory n).length = n := by
  rw [empty, List.length_map, List.length_range]

theorem resize_eq (h : tensor.length ≤ size) :
    resize memory tensor size = .ok (padded memory size tensor) := by
  rw [resize, if_neg (Int.not_lt.mpr (Int.natCast_nonneg size)), Int.toNat_natCast,
    List.take_of_length_le h, padded]

theorem length_padded (h : tensor.length ≤ size) : (padded memory size tensor).length = size := by
  rw [padded, List.length_append, length_empty, Nat.add_sub_of_le h]

/-- What was added is cut off again. -/
theorem upTo_padded : upTo (padded memory size tensor) tensor.length = tensor := by
  rw [upTo, if_pos (Int.natCast_nonneg _), Int.toNat_natCast, padded, List.take_left]

end Padding

/-- The largest of some numbers that are not negative. -/
theorem maxObjectSize_lengths {lengths : List Nat} (h : lengths ≠ []) :
    ∃ size : Nat, maxObjectSize (lengths.map fun n : Nat => (n : Int)) = .ok (size : Int) ∧
      ∀ n ∈ lengths, n ≤ size := by
  obtain ⟨size, hsize⟩ : ∃ size, (lengths.map fun n : Nat => (n : Int)).max? = some size := by
    rw [← Option.isSome_iff_exists, List.isSome_max?_iff, ne_eq, List.map_eq_nil_iff]
    exact h
  obtain ⟨hmem, hle⟩ := List.max?_eq_some_iff.mp hsize
  obtain ⟨n, _, rfl⟩ := List.mem_map.mp hmem
  refine ⟨n, by rw [maxObjectSize, hsize], fun n' hn' => ?_⟩
  exact Int.ofNat_le.mp (hle n' (List.mem_map_of_mem hn'))

/-! ## The calls of a group -/

variable {Obj : Type}

/-- The ranks of the world. -/
def worldRanks (worldSize : Nat) : List Int :=
  (List.range worldSize).map fun rank : Nat => (rank : Int)

/-- The ranks of a communicator: all, or those of a group. -/
def memberRanks (worldSize : Nat) : Option (List Int) → List Int
  | none => worldRanks worldSize
  | some ranks => (worldRanks worldSize).filter (· ∈ ranks)

/-- Every rank of the world is in the group. -/
def SpansWorld (worldSize : Nat) : Option (List Int) → Prop
  | none => True
  | some ranks => ∀ rank : Nat, rank < worldSize → (rank : Int) ∈ ranks

instance (worldSize : Nat) : (ranks : Option (List Int)) → Decidable (SpansWorld worldSize ranks)
  | none => .isTrue trivial
  | some ranks =>
      inferInstanceAs (Decidable (∀ rank : Nat, rank < worldSize → (rank : Int) ∈ ranks))

theorem length_worldRanks (worldSize : Nat) : (worldRanks worldSize).length = worldSize := by
  rw [worldRanks, List.length_map, List.length_range]

theorem length_memberRanks_le (worldSize : Nat) (ranks : Option (List Int)) :
    (memberRanks worldSize ranks).length ≤ worldSize := by
  cases ranks with
  | none => exact Nat.le_of_eq (length_worldRanks worldSize)
  | some ranks =>
      calc (memberRanks worldSize (some ranks)).length
          ≤ (worldRanks worldSize).length := List.length_filter_le _ _
        _ = worldSize := length_worldRanks worldSize

theorem length_memberRanks_eq_iff (worldSize : Nat) (ranks : Option (List Int)) :
    (memberRanks worldSize ranks).length = worldSize ↔ SpansWorld worldSize ranks := by
  cases ranks with
  | none => exact iff_of_true (length_worldRanks worldSize) trivial
  | some ranks =>
      have hall : (memberRanks worldSize (some ranks)).length = (worldRanks worldSize).length ↔
          ∀ rank ∈ worldRanks worldSize, rank ∈ ranks := by
        simp [memberRanks]
      rw [length_worldRanks] at hall
      rw [hall, SpansWorld, worldRanks, List.forall_mem_map]
      simp only [List.mem_range]

/-- One call of each member of a group, in the order of their ranks: each backend is
initialised, has the world communicator in place and knows the group, and each list has
the group's size. -/
structure GroupCalls (worldSize : Nat) (ranks : Option (List Int))
    (calls : List (GatherCall Obj)) : Prop where
  nonempty : calls ≠ []
  length_calls : calls.length = (memberRanks worldSize ranks).length
  initialized : ∀ call ∈ calls, call.self.initialized = true
  world : ∀ call ∈ calls, World call.self
  worldSize_eq : ∀ call ∈ calls, call.self.worldSize = worldSize
  ranks_eq : ∀ call ∈ calls, call.group.map CommGroup.ranks = ranks
  known : ∀ call ∈ calls, ∀ group ∈ call.group,
    group.handle ∈ call.self.subGroups.map Prod.fst
  length_list : ∀ call ∈ calls, call.objectList.length = calls.length

namespace GroupCalls

variable {worldSize : Nat} {ranks : Option (List Int)} {calls : List (GatherCall Obj)}
  {comm : Gatherer} {pickle : Pickle Obj}

/-- The assertions hold for every member. -/
theorem enter_ok (h : GroupCalls worldSize ranks calls) :
    calls.forM GatherCall.enter = .ok () := by
  rw [forM_eq_ok_iff]
  intro call hcall
  obtain ⟨c, hc, _⟩ := h.world call hcall (h.initialized call hcall)
  have hwp : wp (requireInitialized >>= fun _ => enterGroup call.group none)
      (fun _ _ => True) (fun _ _ => False) call.self := by
    rw [wp_bind, wp_requireInitialized]
    refine ⟨fun _ => ?_, fun hnot => hnot (h.initialized call hcall)⟩
    cases hgroup : call.group with
    | none => trivial
    | some group =>
        apply wp_enterGroup hc (h.known call hcall group hgroup)
        · intro r hr
          cases hr
        · exact fun _ => trivial
  obtain ⟨_, _, henter, _⟩ := wp_returns_iff.mp hwp
  rw [GatherCall.enter, henter]

theorem worldSize_toNat (h : GroupCalls worldSize ranks calls) {call : GatherCall Obj}
    (hcall : call ∈ calls) : call.worldSize = worldSize := by
  rw [GatherCall.worldSize, h.worldSize_eq call hcall, Int.toNat_natCast]

/-- The sizes that every member gets, where the group is the world. -/
theorem objectSizes_eq (h : GroupCalls worldSize ranks calls) (hspans : calls.length = worldSize)
    {call : GatherCall Obj} (hcall : call ∈ calls) :
    call.objectSizes comm (calls.map fun call => (objectToTensor pickle call.object).2) =
      (calls.map fun call => (pickle.dump call.object).length).map fun n : Nat => (n : Int) := by
  have hone : ∀ sizes ∈ calls.map fun call => (objectToTensor pickle call.object).2,
      sizes.length = 1 := by
    intro sizes hsizes
    obtain ⟨_, _, rfl⟩ := List.mem_map.mp hsizes
    rfl
  have hroom : (calls.map fun call => (objectToTensor pickle call.object).2).length * 1 =
      (empty call.memory.sizes worldSize).length := by
    rw [Nat.mul_one, List.length_map, hspans, length_empty]
  rw [GatherCall.objectSizes, h.worldSize_toNat hcall,
    comm.consecutive 1 _ _ hone (Nat.le_of_eq hroom), hroom, List.drop_length, List.append_nil]
  simp only [objectToTensor, List.map_map]
  exact List.map_eq_flatMap.symm

/-- The loop of a member, where the group is the world. -/
theorem filled (h : GroupCalls worldSize ranks calls) (hspans : calls.length = worldSize)
    {size : Nat} (hdump : ∀ call ∈ calls, (pickle.dump call.object).length ≤ size)
    {call : GatherCall Obj} (hcall : call ∈ calls) :
    ((outputTensors (comm.allGather
        (calls.map fun call => padded call.memory.input size (pickle.dump call.object))
        (empty call.memory.output (size * worldSize))) size worldSize).zip
      ((calls.map fun call => (pickle.dump call.object).length).map
        fun n : Nat => (n : Int))).zipIdx.foldlM
      (fill fun entry => tensorToObject pickle entry.1 entry.2) call.objectList =
      .ok (calls.map GatherCall.object) := by
  have hlength : ∀ input ∈
      calls.map fun call => padded call.memory.input size (pickle.dump call.object),
      input.length = size := by
    intro input hinput
    obtain ⟨other, hother, rfl⟩ := List.mem_map.mp hinput
    exact length_padded (hdump other hother)
  have hcoalesced : comm.allGather
      (calls.map fun call => padded call.memory.input size (pickle.dump call.object))
      (empty call.memory.output (size * worldSize)) =
        (calls.map fun call =>
          padded call.memory.input size (pickle.dump call.object)).flatten := by
    have hroom : (calls.map fun call => padded call.memory.input size
        (pickle.dump call.object)).length * size =
          (empty call.memory.output (size * worldSize)).length := by
      rw [List.length_map, hspans, length_empty, Nat.mul_comm]
    rw [comm.consecutive size _ _ hlength (Nat.le_of_eq hroom), hroom, List.drop_length,
      List.append_nil]
  have hslices := outputTensors_flatten hlength
  rw [List.length_map, hspans] at hslices
  rw [hcoalesced, hslices, List.map_map, List.zip_map']
  have hread : List.Forall₂ (fun entry object =>
      tensorToObject pickle entry.1 entry.2 = .ok object)
      (calls.map fun call => (padded call.memory.input size (pickle.dump call.object),
        ((pickle.dump call.object).length : Int))) (calls.map GatherCall.object) := by
    rw [List.forall₂_map_left_iff, List.forall₂_map_right_iff, List.forall₂_same]
    intro other _
    exact (congrArg pickle.load upTo_padded).trans (pickle.load_dump other.object)
  apply fill_all hread
  rw [List.length_map, h.length_list call hcall, Nat.zero_add]

variable (comm pickle) in
/-- Where the group is the world, every member is left with the objects of all. -/
theorem gathers (h : GroupCalls worldSize ranks calls) (hspans : calls.length = worldSize) :
    gatherObjects comm pickle calls = .ok (calls.map fun _ => calls.map GatherCall.object) := by
  have hnonempty : (calls.map fun call => (pickle.dump call.object).length) ≠ [] :=
    fun hnil => h.nonempty (List.map_eq_nil_iff.mp hnil)
  obtain ⟨size, hmax, hle⟩ := maxObjectSize_lengths hnonempty
  have hdump : ∀ call ∈ calls, (pickle.dump call.object).length ≤ size :=
    fun call hcall => hle _ (List.mem_map_of_mem hcall)
  have hinputs : (calls.mapM fun call => call.inputTensor pickle (call.objectSizes comm
      (calls.map fun call => (objectToTensor pickle call.object).2))) =
        .ok (calls.map fun call => padded call.memory.input size (pickle.dump call.object)) := by
    apply mapM_eq_ok
    intro call hcall
    rw [GatherCall.inputTensor, h.objectSizes_eq hspans hcall, hmax]
    exact resize_eq (hdump call hcall)
  have hlists : (calls.mapM fun call => call.filledList comm pickle
      (call.objectSizes comm (calls.map fun call => (objectToTensor pickle call.object).2))
      (calls.map fun call => padded call.memory.input size (pickle.dump call.object))) =
        .ok (calls.map fun _ => calls.map GatherCall.object) := by
    apply mapM_eq_ok
    intro call hcall
    rw [GatherCall.filledList, h.objectSizes_eq hspans hcall, hmax, h.worldSize_toNat hcall]
    exact h.filled hspans hdump hcall
  exact bind_eq_ok.mpr ⟨(), h.enter_ok, bind_eq_ok.mpr ⟨_, hinputs, hlists⟩⟩

/-- A member that is left with a list has one with a place for every rank of the world. -/
theorem spans_of_gathered (h : GroupCalls worldSize ranks calls) {lists : List (List Obj)}
    (hgathered : gatherObjects comm pickle calls = .ok lists) : calls.length = worldSize := by
  obtain ⟨call, rest, rfl⟩ := List.exists_cons_of_ne_nil h.nonempty
  have hcall : call ∈ call :: rest := List.mem_cons_self
  obtain ⟨_, _, hgathered⟩ := bind_eq_ok.mp hgathered
  obtain ⟨inputs, _, hlists⟩ := bind_eq_ok.mp hgathered
  rw [List.mapM_cons] at hlists
  obtain ⟨list, hfilled, _⟩ := bind_eq_ok.mp hlists
  obtain ⟨size, _, hloop⟩ := bind_eq_ok.mp hfilled
  have hroom := length_le_of_fill (Nat.zero_le _) hloop
  rw [Nat.zero_add, List.length_zip, outputTensors, List.length_map, List.length_range,
    GatherCall.objectSizes, comm.length_allGather, length_empty, Nat.min_self,
    h.worldSize_toNat hcall, h.length_list call hcall] at hroom
  have hle := length_memberRanks_le worldSize ranks
  rw [← h.length_calls] at hle
  exact Nat.le_antisymm hle hroom

end GroupCalls

/-- Every member of a group is left with the objects of all of them, each at the place of
its member, whatever the memory held, if and only if the group is the world. -/
theorem gatherObjects_iff {worldSize : Nat} {ranks : Option (List Int)}
    {calls : List (GatherCall Obj)} (comm : Gatherer) (pickle : Pickle Obj)
    (h : GroupCalls worldSize ranks calls) :
    gatherObjects comm pickle calls = .ok (calls.map fun _ => calls.map GatherCall.object) ↔
      SpansWorld worldSize ranks := by
  rw [← length_memberRanks_eq_iff, ← h.length_calls]
  exact ⟨h.spans_of_gathered, h.gathers comm pickle⟩

/-- A collective that writes its inputs where the output begins, as many as fit. -/
def frontGatherer : Gatherer where
  allGather inputs out := (inputs.flatten ++ out.drop inputs.flatten.length).take out.length
  length_allGather inputs out := by
    rw [List.length_take, List.length_append, List.length_drop]
    omega
  consecutive n inputs out hlength hroom := by
    have hflatten : inputs.flatten.length = inputs.length * n := by
      have hlengths : inputs.map List.length = List.replicate inputs.length n :=
        List.eq_replicate_iff.mpr ⟨List.length_map _, by simpa using hlength⟩
      rw [List.length_flatten, hlengths, List.sum_replicate_nat]
    rw [hflatten, List.take_of_length_le]
    rw [List.length_append, List.length_drop, hflatten]
    omega

/-- Objects that are their own bytes. -/
def bytesPickle : Pickle (List UInt8) := ⟨id, .ok, fun _ => rfl⟩

/-- A rank of a world, once ranks 0 and 1 are a group. -/
def rankInPair (worldSize rank : Int) : Instance :=
  after (perform Nccl.newGroup (libraryRaising []) (.newGroup [1, 0]))
    (after (perform Nccl.newGroup (libraryRaising []) (.initProcessGroup rank worldSize)) .new)

/-- Ranks 0 and 1 gather two bytes and one in their group, in memory full of `byte`. -/
def pairCalls (worldSize : Int) (byte : UInt8) : List (GatherCall (List UInt8)) :=
  [⟨rankInPair worldSize 0, some ⟨7, [0, 1]⟩, [[], []], [1, 2],
      ⟨fun _ => byte.toNat, fun _ => byte, fun _ => byte⟩⟩,
    ⟨rankInPair worldSize 1, some ⟨7, [0, 1]⟩, [[], []], [3],
      ⟨fun _ => byte.toNat, fun _ => byte, fun _ => byte⟩⟩]

theorem groupCalls_pairCalls {worldSize : Int} (h : worldSize = 2 ∨ worldSize = 3) :
    GroupCalls worldSize.toNat (some [0, 1]) (pairCalls worldSize 9) := by
  obtain rfl | rfl := h
  · constructor <;> decide
  · constructor <;> decide

/-- In a world of the two, both get the bytes. -/
theorem gatherObjects_iff_pair :
    gatherObjects frontGatherer bytesPickle (pairCalls 2 9) =
        .ok [[[1, 2], [3]], [[1, 2], [3]]] ∧ SpansWorld 2 (some [0, 1]) := by
  have hspans : SpansWorld 2 (some [0, 1]) := by decide
  exact ⟨(gatherObjects_iff frontGatherer bytesPickle
    (groupCalls_pairCalls (Or.inl rfl))).mpr hspans, hspans⟩

/-- In a world of three, the loop goes on to a place that the list of two does not have. -/
theorem gatherObjects_pair_of_three :
    GroupCalls 3 (some [0, 1]) (pairCalls 3 9) ∧
      gatherObjects frontGatherer bytesPickle (pairCalls 3 9) =
        .error (.indexError "list assignment index out of range") :=
  ⟨groupCalls_pairCalls (Or.inr rfl), by decide +kernel⟩

end CheckpointEngine.Distributed
