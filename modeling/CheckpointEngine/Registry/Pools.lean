/-
  `Registry.Pools`: what holds of every memory pool in every run.

  A pool is empty or as `_register_checkpoint` has returned it.
-/
import CheckpointEngine.Registry.Packing
import CheckpointEngine.Registry.ParameterServer
import Mathlib.Algebra.BigOperators.Group.List.Basic

set_option autoImplicit false

namespace CheckpointEngine.Registry

open CheckpointEngine.Foundation

/-! ## What is registered -/

/-- Every buffer has the size that is noted for it, and its tensors add up to it. -/
def Tiled (pool : List MemoryBuffer) : Prop :=
  ∀ b ∈ pool, b.buffer.nbytes = b.size ∧ load ParameterMeta.alignedSize b.metas = b.size

/-- The metas of a header that is accepted add up to where it ends. -/
theorem parseHeader_sum {Size : Type} [AddMonoid Size] [LinearOrder Size] [ToString Size]
    {offset last : Size} {entries : List (HeaderEntry Size)} {metas : List (ParameterMeta Size)}
    (h : parseHeader offset entries = .ok (last, metas)) :
    offset + (metas.map (·.alignedSize)).sum = last := by
  induction entries generalizing offset metas with
  | nil =>
      obtain ⟨rfl, rfl⟩ := Prod.mk.inj (Except.ok.inj h)
      exact add_zero _
  | cons entry rest ih =>
      unfold parseHeader at h
      split at h
      · rename_i hstart
        obtain ⟨⟨last', metas'⟩, hrest, h⟩ := bind_eq_ok.mp h
        obtain ⟨rfl, rfl⟩ := Prod.mk.inj (Except.ok.inj h)
        rw [List.map_cons, List.sum_cons, ← add_assoc, hstart, entry.start_add_size]
        exact ih hrest
      · cases h

section Loaded

variable {host : Host} {files : List String} {namedTensors : List Parameter}
  {shared loaded : List MemoryBuffer}

theorem registerPinMemory_nbytes {idx size : Nat} {buffer : Tensor}
    (h : registerPinMemory host shared idx size = .ok buffer) : buffer.nbytes = size := by
  unfold registerPinMemory at h
  split at h
  · obtain rfl := Except.ok.inj h
    rfl
  · split at h
    · cases h
    · split at h
      · cases h
      · split at h
        · cases h
        · rename_i hnbytes
          obtain rfl := Except.ok.inj h
          exact not_not.mp hnbytes

/-- The tensors of a bucket add up to its size. -/
theorem packBuckets_load {parameters : List Parameter} {bucket : MemoryBucket}
    (h : bucket ∈ packBuckets parameters) :
    load ParameterMeta.alignedSize bucket.metas = bucket.size := by
  rw [packBuckets_eq] at h
  obtain ⟨bin, _, rfl⟩ := List.mem_map.mp h
  exact load_map ParameterMeta.alignedSize Parameter.packed bin

/-- Whatever is registered consists of buffers that their tensors tile. -/
theorem registerCheckpoint_tiled {inplacePin : Bool}
    (h : registerCheckpoint host files namedTensors shared inplacePin = .ok loaded) :
    Tiled loaded := by
  refine registerCheckpoint_forall (fun hnormal b hb => ?_) (fun hfile => ?_) h
  · obtain ⟨_, bucket, hbucket, _, hbuffer, hsize, hmetas⟩ := normalPinMemory_bucket hnormal hb
    rw [hsize, hmetas]
    exact ⟨registerPinMemory_nbytes hbuffer, packBuckets_load hbucket⟩
  · obtain ⟨file, -, hparse, hbuffer, hsize⟩ := parseAndPin_parsed hfile
    have hsum := parseHeader_sum hparse
    rw [Nat.zero_add] at hsum
    rw [hbuffer, hsize]
    exact ⟨rfl, hsum⟩

end Loaded

namespace ParameterServer

section Pools

variable {Size : Type} {P : List (MemoryBuffer Size) → Prop} {s t : ParameterServer Size}
  {name : String}

/-! ## Every pool of every run -/

/-- Every pool satisfies `P`. -/
def AllPools (P : List (MemoryBuffer Size) → Prop) (s : ParameterServer Size) : Prop :=
  ∀ name pool, s.memoryPool name = some pool → P pool

theorem AllPools.congr (h : AllPools P s) (hpools : t.memoryPool = s.memoryPool) :
    AllPools P t := by
  intro name pool hpool
  exact h name pool (hpools ▸ hpool)

/-- One pool is replaced. -/
theorem AllPools.update (h : AllPools P s) {left : Option (List (MemoryBuffer Size))}
    (hleft : ∀ pool, left = some pool → P pool)
    (hpools : t.memoryPool = Function.update s.memoryPool name left) : AllPools P t := by
  intro other pool hpool
  rw [hpools, Function.update_apply] at hpool
  split at hpool
  · exact hleft pool hpool
  · exact h other pool hpool

variable [Add Size] {backend : Backend Size}

theorem publish_pools (wanted : Bool) :
    (s.publish backend name wanted).state.memoryPool = s.memoryPool := by
  unfold publish registerParametersToP2pStore
  split
  · cases hstore : s.p2pStore with
    | none => rfl
    | some store =>
        cases hpool : s.getMemoryPool name with
        | error error => rfl
        | ok pool =>
            simp only
            split
            · rfl
            · cases store.registerNamedTensors backend
                (namedTensors (s.registerName name) pool) <;> rfl
  · rfl

theorem unregisterParameters_pools (h : s.unregisterParametersFromP2pStore backend name = .ok t) :
    t.memoryPool = s.memoryPool := by
  unfold unregisterParametersFromP2pStore at h
  cases hstore : s.p2pStore with
  | none => rw [hstore] at h; cases h
  | some store =>
      rw [hstore] at h
      obtain ⟨pool, _, h⟩ := bind_eq_ok.mp h
      split at h
      · obtain rfl := Except.ok.inj h
        rfl
      · obtain ⟨store', _, h⟩ := bind_eq_ok.mp h
        obtain rfl := Except.ok.inj h
        rfl

variable [OfNat Size 0] [NatCast Size] [LinearOrder Size] [ToString Size]

variable (P) in
/-- `P` holds of the empty pool and of what `_register_checkpoint` returns. -/
structure HoldsOfLoaded : Prop where
  nil : P []
  loaded : ∀ {host files namedTensors shared inplacePin loaded},
    Registry.registerCheckpoint host files namedTensors shared inplacePin = .ok loaded → P loaded

theorem AllPools.dropCheckpoint (hP : HoldsOfLoaded P) (h : AllPools P s) :
    AllPools P (s.dropCheckpoint backend name).state := by
  unfold ParameterServer.dropCheckpoint
  split
  · split
    · exact h.congr rfl
    · apply h.update _ rfl
      intro pool hpool
      obtain rfl := Option.some.inj hpool
      exact hP.nil
  · split
    · exact h
    · apply h.update _ rfl
      intro pool hnone
      cases hnone

theorem AllPools.unregisterCheckpoint (hP : HoldsOfLoaded P) (h : AllPools P s) {force : Bool} :
    AllPools P (s.unregisterCheckpoint backend name force).state := by
  unfold ParameterServer.unregisterCheckpoint
  split
  · exact h
  · split
    · exact h.congr rfl
    · split
      · cases hparams : s.unregisterParametersFromP2pStore backend name with
        | error error => exact h
        | ok t => exact (h.congr (unregisterParameters_pools hparams)).dropCheckpoint hP
      · exact h.dropCheckpoint hP

theorem AllPools.rollback (hP : HoldsOfLoaded P) (h : AllPools P s) {request : Request}
    {error : PyError} : AllPools P (s.rollback backend request error).state := by
  rw [rollback_state]
  split
  · cases hparams : s.unregisterParametersFromP2pStore backend request.checkpointName with
    | error error => exact h
    | ok t => exact (h.congr (unregisterParameters_pools hparams)).unregisterCheckpoint hP
  · exact h.unregisterCheckpoint hP

theorem AllPools.tryShared (hP : HoldsOfLoaded P) (h : AllPools P s) {request : Request} :
    AllPools P (s.tryShared backend request).state := by
  unfold ParameterServer.tryShared
  simp only
  split
  · exact h
  · split
    · exact h
    · split
      · exact h
      · rename_i hload
        refine AllPools.congr (h.update ?_ rfl) (publish_pools _)
        intro pool hpool
        obtain rfl := Option.some.inj hpool
        exact hP.loaded hload

theorem AllPools.trySeparate (hP : HoldsOfLoaded P) (h : AllPools P s) {request : Request} :
    AllPools P (s.trySeparate backend request).state := by
  unfold ParameterServer.trySeparate
  simp only
  split
  · exact h
  · split
    · exact h
    · rename_i hload
      refine AllPools.congr (h.update ?_ rfl) (publish_pools _)
      intro pool hpool
      obtain rfl := Option.some.inj hpool
      exact hP.loaded hload

theorem AllPools.registerCheckpoint (hP : HoldsOfLoaded P) (h : AllPools P s) {request : Request} :
    AllPools P (s.registerCheckpoint backend request).state := by
  have htried : AllPools P (s.tryRegister backend request).state := by
    unfold tryRegister
    split
    · exact h.tryShared hP
    · exact h.trySeparate hP
  cases hresult : s.tryRegister backend request with
  | returned t =>
      rw [registerCheckpoint_of_returned hresult]
      rwa [hresult] at htried
  | raised error t =>
      rw [registerCheckpoint_of_raised hresult]
      rw [hresult] at htried
      exact AllPools.rollback hP htried

/-- What is loaded is all there is in the pools, in every run and whatever raises. -/
theorem allPools_reachable (hP : HoldsOfLoaded P) {p2p : Bool} (h : (machine p2p).Reachable s) :
    AllPools P s := by
  apply Machine.Reachable.invariant (I := AllPools P) _ _ h
  · intro name pool hpool
    change Function.update (fun _ => none) sharedMemoryPoolName (some []) name = some pool at hpool
    rw [Function.update_apply] at hpool
    split at hpool
    · obtain rfl := Option.some.inj hpool
      exact hP.nil
    · cases hpool
  · intro s action t _ hs hstep
    obtain rfl := Option.some.inj hstep
    cases action.2 with
    | register request => exact hs.registerCheckpoint hP
    | unregister name force => exact hs.unregisterCheckpoint hP

end Pools

theorem holdsOfLoaded_tiled : HoldsOfLoaded Tiled := ⟨nofun, registerCheckpoint_tiled⟩

end ParameterServer

end CheckpointEngine.Registry
