/-
  `Barrier.Cleanup`: stale keys of the barrier are deleted safely.

  A rank leaves a barrier normally only when all ranks have added themselves to its
  generation, so rank 0 leaving generation `N` means that every other rank is in `N` or
  beyond.  The keys that rank 0 deletes then are of a generation below `N`.
-/
import CheckpointEngine.Barrier.Store

set_option autoImplicit false

namespace CheckpointEngine.Barrier

open CheckpointEngine.Foundation

/-! ## The invariant -/

/-- What holds of one rank by itself: the trash is rank 0's, lists generations in order,
and what is being deleted is older than all of it. -/
structure ServerInv (rank : Rank) (server : Server) : Prop where
  positive : server.InBarrier → 1 ≤ server.storeBarrierCounter
  cleaner : rank ≠ 0 → server.storeBarrierTrash = [] ∧ ∀ key, server.pc ≠ .delete key
  sorted : server.storeBarrierTrash.Pairwise (· < ·)
  bounds : ∀ generation ∈ server.storeBarrierTrash,
    1 ≤ generation ∧ generation ≤ server.storeBarrierCounter
  earlier : server.InBarrier → ∀ generation ∈ server.storeBarrierTrash,
    generation < server.storeBarrierCounter
  deleting : ∀ key, server.pc = .delete key →
    1 ≤ key.generation ∧ ∀ generation ∈ server.storeBarrierTrash, key.generation < generation

/-- What holds of the store: counts are right until a key is deleted, `last_worker` keys
mean that all have arrived, and what has been or is being deleted lies behind all ranks. -/
structure BarrierInv (worldSize : Nat) (s : State) : Prop where
  server : ∀ rank, ServerInv rank (s.ranks rank)
  counts : ∀ generation, 1 ≤ generation → .arrived generation ∉ s.deleted →
    s.store (.arrived generation) =
      if s.arrivedCount worldSize generation = 0 then none
      else some (s.arrivedCount worldSize generation)
  released : ∀ generation, (s.store (.lastWorker generation)).isSome →
    s.AllArrived worldSize generation
  announcing : ∀ rank < worldSize, (s.ranks rank).pc = .announce →
    s.AllArrived worldSize (s.ranks rank).storeBarrierCounter
  gone : ∀ key ∈ s.deleted, s.store key = none ∧
    ∀ rank < worldSize, key.generation < (s.ranks rank).storeBarrierCounter
  kept : ∀ generation ∈ (s.ranks 0).storeBarrierTrash, s.AllArrived worldSize generation ∧
    (s.store (.lastWorker generation)).isSome ∧ ∀ key ∈ s.deleted, key.generation < generation
  deleting : ∀ key, (s.ranks 0).pc = .delete key →
    (∀ rank < worldSize, key.generation < (s.ranks rank).storeBarrierCounter) ∧
      ∀ old ∈ s.deleted, old.generation < key.generation ∨
        old = .arrived key.generation ∧ key = .lastWorker key.generation
  nodup : s.deleted.Nodup

theorem serverInv_fresh (rank : Rank) : ServerInv rank .fresh := by
  constructor <;> simp [Server.fresh, Server.InBarrier]

theorem barrierInv_init {worldSize : Nat} {reaches : Nat → Rank → Bool} :
    BarrierInv worldSize (barriers worldSize reaches).init where
  server := serverInv_fresh
  counts := by
    intro generation hpos _
    have hcount : (barriers worldSize reaches).init.arrivedCount worldSize generation = 0 := by
      refine List.countP_eq_zero.mpr fun rank _ => ?_
      have : (Server.fresh).arrivals = 0 := rfl
      simpa [barriers, this] using Nat.ne_of_gt hpos
    rw [hcount]
    rfl
  released := by simp [barriers]
  announcing := by simp [barriers, Server.fresh]
  gone := by simp [barriers]
  kept := by simp [barriers, Server.fresh]
  deleting := by simp [barriers, Server.fresh]
  nodup := List.nodup_nil

/-! ## One step -/

section Step

variable {worldSize : Nat} {s : State}

theorem arrivedCount_setRank {rank : Rank} {server : Server}
    (h : server.arrivals = (s.ranks rank).arrivals) (generation : Nat) :
    (s.setRank rank server).arrivedCount worldSize generation =
      s.arrivedCount worldSize generation := by
  refine List.countP_congr fun other _ => ?_
  by_cases hother : other = rank
  · subst hother
    rw [State.setRank_self, h]
  · rw [State.setRank_other hother]

theorem allArrived_setRank {rank : Rank} {server : Server}
    (h : (s.ranks rank).arrivals ≤ server.arrivals) {generation : Nat}
    (hall : s.AllArrived worldSize generation) :
    (s.setRank rank server).AllArrived worldSize generation :=
  State.setRank_forall (P := fun other server => other < worldSize → generation ≤ server.arrivals)
    (fun hrank => Nat.le_trans (hall rank hrank) h) fun other _ => hall other

theorem counter_setRank {rank : Rank} {server : Server}
    (h : (s.ranks rank).storeBarrierCounter ≤ server.storeBarrierCounter) {n : Nat}
    (hall : ∀ other < worldSize, n < (s.ranks other).storeBarrierCounter) :
    ∀ other < worldSize, n < ((s.setRank rank server).ranks other).storeBarrierCounter :=
  State.setRank_forall
    (P := fun other server => other < worldSize → n < server.storeBarrierCounter)
    (fun hrank => Nat.lt_of_lt_of_le (hall rank hrank) h) fun other _ => hall other

/-- One more element of a list without repetitions is counted. -/
theorem countP_succ {xs : List Nat} (hnodup : xs.Nodup) {x : Nat} (hx : x ∈ xs)
    {p q : Nat → Bool} (hsame : ∀ y ∈ xs, y ≠ x → p y = q y) (hp : p x = false)
    (hq : q x = true) : xs.countP q = xs.countP p + 1 := by
  induction xs with
  | nil => simp at hx
  | cons y ys ih =>
      obtain ⟨hnotin, hnodup⟩ := List.nodup_cons.mp hnodup
      rcases List.mem_cons.mp hx with rfl | hmem
      · have hrest : ys.countP p = ys.countP q := by
          refine List.countP_congr fun z hz => ?_
          have hne : z ≠ x := fun heq => hnotin (heq ▸ hz)
          rw [hsame z (List.mem_cons_of_mem _ hz) hne]
        rw [List.countP_cons_of_pos hq, List.countP_cons_of_neg (by simp [hp]), hrest]
      · have hne : y ≠ x := fun heq => hnotin (heq ▸ hmem)
        have hih := ih hnodup hmem fun z hz => hsame z (List.mem_cons_of_mem _ hz)
        rw [List.countP_cons, List.countP_cons, hih, hsame y List.mem_cons_self hne]
        omega

/-- Arriving counts the rank for its generation and for no other. -/
theorem arrivedCount_arrive {rank : Rank} (hrank : rank < worldSize)
    (hpc : (s.ranks rank).pc = .arrive) (hpositive : 1 ≤ (s.ranks rank).storeBarrierCounter)
    (generation : Nat) :
    (s.setRank rank { s.ranks rank with pc := .read }).arrivedCount worldSize generation =
      s.arrivedCount worldSize generation +
        if generation = (s.ranks rank).storeBarrierCounter then 1 else 0 := by
  have hbefore : (s.ranks rank).arrivals = (s.ranks rank).storeBarrierCounter - 1 := by
    simp [Server.arrivals, hpc]
  have hafter : ({ s.ranks rank with pc := .read } : Server).arrivals =
      (s.ranks rank).storeBarrierCounter := by
    simp [Server.arrivals]
  unfold State.arrivedCount
  split
  · next hgeneration =>
      subst hgeneration
      refine countP_succ List.nodup_range (List.mem_range.mpr hrank) ?_ ?_ ?_
      · intro other _ hne
        rw [State.setRank_other hne]
      · rw [hbefore]
        exact decide_eq_false (by omega)
      · rw [State.setRank_self, hafter]
        exact decide_eq_true (Nat.le_refl _)
  · next hgeneration =>
      refine List.countP_congr fun other _ => ?_
      by_cases heq : other = rank
      · subst heq
        rw [State.setRank_self, hafter, hbefore, decide_eq_true_iff, decide_eq_true_iff]
        omega
      · rw [State.setRank_other heq]

/-- A rank moves on and leaves a store that counts right, releases only where all have
arrived, and neither takes back a release nor brings back a deleted key. -/
theorem BarrierInv.move (h : BarrierInv worldSize s) {rank : Rank} {server : Server}
    {store : Store} (hserver : ServerInv rank server)
    (harrivals : (s.ranks rank).arrivals ≤ server.arrivals)
    (hcounter : (s.ranks rank).storeBarrierCounter ≤ server.storeBarrierCounter)
    (hcounts : ∀ generation, 1 ≤ generation → .arrived generation ∉ s.deleted →
      store (.arrived generation) =
        if (s.setRank rank server).arrivedCount worldSize generation = 0 then none
        else some ((s.setRank rank server).arrivedCount worldSize generation))
    (hreleased : ∀ generation, (store (.lastWorker generation)).isSome →
      s.AllArrived worldSize generation)
    (hstays : ∀ generation, (s.store (.lastWorker generation)).isSome →
      (store (.lastWorker generation)).isSome)
    (hgone : ∀ key ∈ s.deleted, store key = none)
    (hannounce : server.pc = .announce → s.AllArrived worldSize server.storeBarrierCounter)
    (hkept : rank = 0 → ∀ generation ∈ server.storeBarrierTrash,
      s.AllArrived worldSize generation ∧ (s.store (.lastWorker generation)).isSome ∧
        ∀ key ∈ s.deleted, key.generation < generation)
    (hdeleting : rank = 0 → ∀ key, server.pc = .delete key →
      (∀ other < worldSize, key.generation < (s.ranks other).storeBarrierCounter) ∧
        ∀ old ∈ s.deleted, old.generation < key.generation ∨
          old = .arrived key.generation ∧ key = .lastWorker key.generation) :
    BarrierInv worldSize { s.setRank rank server with store } := by
  have hbehind : ∀ n : Nat, (∀ other < worldSize, n < (s.ranks other).storeBarrierCounter) →
      ∀ other < worldSize, n < ((s.setRank rank server).ranks other).storeBarrierCounter :=
    fun n => counter_setRank hcounter
  have hall : ∀ generation, s.AllArrived worldSize generation →
      (s.setRank rank server).AllArrived worldSize generation :=
    fun generation => allArrived_setRank harrivals
  constructor
  case server => exact State.setRank_forall hserver fun other _ => h.server other
  case counts => exact hcounts
  case released => exact fun generation hsome => hall generation (hreleased generation hsome)
  case announcing =>
    exact State.setRank_forall
      (P := fun other moved => other < worldSize → moved.pc = .announce →
        (s.setRank rank server).AllArrived worldSize moved.storeBarrierCounter)
      (fun _ hpc => hall _ (hannounce hpc))
      fun other _ hother hpc => hall _ (h.announcing other hother hpc)
  case gone => exact fun key hkey => ⟨hgone key hkey, hbehind _ (h.gone key hkey).2⟩
  case kept =>
    intro generation hgeneration
    have hold := State.setRank_forall
      (P := fun other moved => other = 0 → generation ∈ moved.storeBarrierTrash →
        s.AllArrived worldSize generation ∧ (s.store (.lastWorker generation)).isSome ∧
          ∀ key ∈ s.deleted, key.generation < generation)
      (fun hzero => hkept hzero generation)
      (fun other _ hzero => by subst hzero; exact h.kept generation) 0 rfl hgeneration
    exact ⟨hall _ hold.1, hstays generation hold.2.1, hold.2.2⟩
  case deleting =>
    intro key hpc
    have hold := State.setRank_forall
      (P := fun other moved => other = 0 → moved.pc = .delete key →
        (∀ other < worldSize, key.generation < (s.ranks other).storeBarrierCounter) ∧
          ∀ old ∈ s.deleted, old.generation < key.generation ∨
            old = .arrived key.generation ∧ key = .lastWorker key.generation)
      (fun hzero => hdeleting hzero key)
      (fun other _ hzero => by subst hzero; exact h.deleting key) 0 rfl hpc
    exact ⟨hbehind _ hold.1, hold.2⟩
  case nodup => exact h.nodup

/-- A rank moves on without arriving anywhere and without touching the store. -/
theorem BarrierInv.setRank (h : BarrierInv worldSize s) {rank : Rank} {server : Server}
    (hserver : ServerInv rank server) (harrivals : server.arrivals = (s.ranks rank).arrivals)
    (hcounter : (s.ranks rank).storeBarrierCounter ≤ server.storeBarrierCounter)
    (hannounce : server.pc = .announce → s.AllArrived worldSize server.storeBarrierCounter)
    (hkept : rank = 0 → ∀ generation ∈ server.storeBarrierTrash,
      s.AllArrived worldSize generation ∧ (s.store (.lastWorker generation)).isSome ∧
        ∀ key ∈ s.deleted, key.generation < generation)
    (hdeleting : rank = 0 → ∀ key, server.pc = .delete key →
      (∀ other < worldSize, key.generation < (s.ranks other).storeBarrierCounter) ∧
        ∀ old ∈ s.deleted, old.generation < key.generation ∨
          old = .arrived key.generation ∧ key = .lastWorker key.generation) :
    BarrierInv worldSize (s.setRank rank server) := by
  refine h.move hserver (Nat.le_of_eq harrivals.symm) hcounter ?_ h.released (fun _ => id)
    (fun key hkey => (h.gone key hkey).1) hannounce hkept hdeleting
  intro generation hpos hkey
  rw [arrivedCount_setRank harrivals]
  exact h.counts generation hpos hkey

/-- A rank that is in the barrier of a generation keeps that generation's keys. -/
theorem BarrierInv.not_gone (h : BarrierInv worldSize s) {rank : Rank} (hrank : rank < worldSize)
    {key : Key} (hkey : key.generation = (s.ranks rank).storeBarrierCounter) :
    key ∉ s.deleted := by
  intro hgone
  have := (h.gone key hgone).2 rank hrank
  omega

/-- A rank that has added itself reads the number of ranks that have. -/
theorem BarrierInv.read_count (h : BarrierInv worldSize s) {rank : Rank}
    (hrank : rank < worldSize) (hpc : (s.ranks rank).pc = .read) :
    s.store (.arrived (s.ranks rank).storeBarrierCounter) =
      some (s.arrivedCount worldSize (s.ranks rank).storeBarrierCounter) := by
  have hpositive := (h.server rank).positive (.inr (.inl hpc))
  have harrivals : (s.ranks rank).arrivals = (s.ranks rank).storeBarrierCounter := by
    simp [Server.arrivals, hpc]
  have hcount : s.arrivedCount worldSize (s.ranks rank).storeBarrierCounter ≠ 0 := by
    refine Nat.ne_of_gt (List.countP_pos_iff.mpr ⟨rank, List.mem_range.mpr hrank, ?_⟩)
    simp [harrivals]
  rw [h.counts _ hpositive (h.not_gone hrank rfl), if_neg hcount]

theorem Store.add_zero {store : Store} {key : Key} {n : Nat} (h : store key = some n) :
    store.add key 0 = store := by
  unfold Store.add
  rw [h]
  exact Function.update_eq_self_iff.mpr h.symm

/-- Reading leaves the store as it is, and only the whole world is announced. -/
theorem BarrierInv.read (h : BarrierInv worldSize s) {rank : Rank} (hrank : rank < worldSize)
    (hpc : (s.ranks rank).pc = .read) {pc : Pc}
    (hnext : pc = .wait ∨ pc = .announce ∧
      s.store.add (.arrived (s.ranks rank).storeBarrierCounter) 0
        (.arrived (s.ranks rank).storeBarrierCounter) = some worldSize) :
    BarrierInv worldSize
      { s.setRank rank { s.ranks rank with pc } with
        store := s.store.add (.arrived (s.ranks rank).storeBarrierCounter) 0 } := by
  have hcount := h.read_count hrank hpc
  rw [Store.add_zero hcount] at hnext ⊢
  have hserver := h.server rank
  have hin : (s.ranks rank).InBarrier := .inr (.inl hpc)
  refine h.setRank ?_ ?_ (Nat.le_refl _) ?_ ?_ ?_
  · exact { hserver with
      positive := fun _ => hserver.positive hin
      cleaner := fun hne => ⟨(hserver.cleaner hne).1, by
        rcases hnext with rfl | ⟨rfl, -⟩ <;> simp⟩
      earlier := fun _ => hserver.earlier hin
      deleting := by rcases hnext with rfl | ⟨rfl, -⟩ <;> simp }
  · rcases hnext with rfl | ⟨rfl, -⟩ <;> simp [Server.arrivals, hpc]
  · intro hannounce
    rcases hnext with rfl | ⟨rfl, hworld⟩
    · cases hannounce
    · rw [hcount] at hworld
      exact allArrived_of_count (Option.some.inj hworld)
  · rintro rfl
    exact h.kept
  · rintro rfl key hdelete
    rcases hnext with rfl | ⟨rfl, -⟩ <;> cases hdelete

/-- A rank adds itself to its generation. -/
theorem BarrierInv.arrive (h : BarrierInv worldSize s) {rank : Rank} (hrank : rank < worldSize)
    (hpc : (s.ranks rank).pc = .arrive) :
    BarrierInv worldSize
      { s.setRank rank { s.ranks rank with pc := .read } with
        store := s.store.add (.arrived (s.ranks rank).storeBarrierCounter) 1 } := by
  have hserver := h.server rank
  have hpositive := hserver.positive (.inl hpc)
  have hother : ∀ key, key ≠ .arrived (s.ranks rank).storeBarrierCounter →
      s.store.add (.arrived (s.ranks rank).storeBarrierCounter) 1 key = s.store key :=
    fun key hne => Function.update_of_ne hne _ _
  have hlast : ∀ generation,
      s.store.add (.arrived (s.ranks rank).storeBarrierCounter) 1 (.lastWorker generation) =
        s.store (.lastWorker generation) := fun generation => hother _ (by simp)
  refine h.move ?_ ?_ (Nat.le_refl _) ?_ ?_ ?_ ?_ (by simp) ?_ (by simp)
  · exact { hserver with
      positive := fun _ => hpositive
      cleaner := fun hne => ⟨(hserver.cleaner hne).1, by simp⟩
      earlier := fun _ => hserver.earlier (.inl hpc)
      deleting := by simp }
  · simp [Server.arrivals, hpc]
  · intro generation hpos hkey
    rw [arrivedCount_arrive hrank hpc hpositive]
    have hold := h.counts generation hpos hkey
    by_cases heq : generation = (s.ranks rank).storeBarrierCounter
    · subst heq
      rw [if_pos rfl, if_neg (Nat.succ_ne_zero _), Store.add, Function.update_self, hold]
      split
      · next hzero => rw [hzero]; rfl
      · rfl
    · rw [if_neg heq, Nat.add_zero, hother _ (by simpa using heq), hold]
  · exact fun generation hsome => h.released generation (hlast generation ▸ hsome)
  · exact fun generation hsome => (hlast generation).symm ▸ hsome
  · intro key hkey
    have hne : key ≠ .arrived (s.ranks rank).storeBarrierCounter := by
      rintro rfl
      exact h.not_gone hrank rfl hkey
    exact (hother key hne).trans (h.gone key hkey).1
  · rintro rfl
    exact h.kept

/-- A rank releases its generation, in which all have arrived. -/
theorem BarrierInv.announce (h : BarrierInv worldSize s) {rank : Rank} (hrank : rank < worldSize)
    (hpc : (s.ranks rank).pc = .announce) :
    BarrierInv worldSize
      { s.setRank rank { s.ranks rank with pc := .wait } with
        store := s.store.set (.lastWorker (s.ranks rank).storeBarrierCounter) } := by
  have hserver := h.server rank
  have hin : (s.ranks rank).InBarrier := .inr (.inr (.inl hpc))
  have harrivals : ({ s.ranks rank with pc := .wait } : Server).arrivals =
      (s.ranks rank).arrivals := by
    simp [Server.arrivals, hpc]
  have hother : ∀ key, key ≠ .lastWorker (s.ranks rank).storeBarrierCounter →
      s.store.set (.lastWorker (s.ranks rank).storeBarrierCounter) key = s.store key :=
    fun key hne => Function.update_of_ne hne _ _
  refine h.move ?_ (Nat.le_of_eq harrivals.symm) (Nat.le_refl _) ?_ ?_ ?_ ?_ (by simp) ?_ (by simp)
  · exact { hserver with
      positive := fun _ => hserver.positive hin
      cleaner := fun hne => ⟨(hserver.cleaner hne).1, by simp⟩
      earlier := fun _ => hserver.earlier hin
      deleting := by simp }
  · intro generation hpos hkey
    rw [arrivedCount_setRank harrivals, hother _ (by simp)]
    exact h.counts generation hpos hkey
  · intro generation hsome
    by_cases heq : generation = (s.ranks rank).storeBarrierCounter
    · exact heq ▸ h.announcing rank hrank hpc
    · rw [hother _ (by simpa using heq)] at hsome
      exact h.released generation hsome
  · intro generation hsome
    by_cases heq : generation = (s.ranks rank).storeBarrierCounter
    · subst heq
      simp [Store.set]
    · rwa [hother _ (by simpa using heq)]
  · intro key hkey
    have hne : key ≠ .lastWorker (s.ranks rank).storeBarrierCounter := by
      rintro rfl
      exact h.not_gone hrank rfl hkey
    exact (hother key hne).trans (h.gone key hkey).1
  · rintro rfl
    exact h.kept

/-- A rank begins an update that raises before its barrier. -/
theorem BarrierInv.skip (h : BarrierInv worldSize s) {rank : Rank}
    (hpc : (s.ranks rank).pc = .outside) :
    BarrierInv worldSize
      (s.setRank rank { s.ranks rank with updates := (s.ranks rank).updates + 1 }) := by
  have hserver := h.server rank
  refine h.setRank ?_ rfl (Nat.le_refl _) ?_ ?_ ?_
  · exact ⟨hserver.positive, hserver.cleaner, hserver.sorted, hserver.bounds, hserver.earlier,
      hserver.deleting⟩
  · intro hannounce
    rw [hpc] at hannounce
    cases hannounce
  · rintro rfl
    exact h.kept
  · rintro rfl
    exact h.deleting

/-- A rank enters the barrier of its next generation. -/
theorem BarrierInv.enter (h : BarrierInv worldSize s) {rank : Rank}
    (hpc : (s.ranks rank).pc = .outside) (entered : List Nat) :
    BarrierInv worldSize
      (s.setRank rank { s.ranks rank with
        updates := (s.ranks rank).updates + 1
        storeBarrierCounter := (s.ranks rank).storeBarrierCounter + 1
        pc := .arrive
        entered }) := by
  have hserver := h.server rank
  refine h.setRank ?_ ?_ (Nat.le_succ _) (by simp) ?_ (by simp)
  · constructor
    · exact fun _ => Nat.le_add_left 1 _
    · exact fun hne => ⟨(hserver.cleaner hne).1, by simp⟩
    · exact hserver.sorted
    · exact fun g hg => ⟨(hserver.bounds g hg).1, Nat.le_succ_of_le (hserver.bounds g hg).2⟩
    · exact fun _ g hg => Nat.lt_succ_of_le (hserver.bounds g hg).2
    · simp
  · simp [Server.arrivals, hpc]
  · rintro rfl
    exact h.kept

/-- A rank leaves the barrier on a timeout. -/
theorem BarrierInv.timeout (h : BarrierInv worldSize s) {rank : Rank}
    (hpc : (s.ranks rank).pc = .wait) :
    BarrierInv worldSize (s.setRank rank { s.ranks rank with pc := .outside }) := by
  have hserver := h.server rank
  refine h.setRank ?_ ?_ (Nat.le_refl _) (by simp) ?_ (by simp)
  · exact { hserver with
      positive := by simp [Server.InBarrier]
      cleaner := fun hne => ⟨(hserver.cleaner hne).1, by simp⟩
      earlier := by simp [Server.InBarrier]
      deleting := by simp }
  · simp [Server.arrivals, hpc]
  · rintro rfl
    exact h.kept

/-- The generation that is left joins the trash in order, as its last. -/
theorem ServerInv.trash_sorted {rank : Rank} {server : Server} (h : ServerInv rank server)
    (hin : server.InBarrier) :
    (server.storeBarrierTrash ++ [server.storeBarrierCounter]).Pairwise (· < ·) := by
  refine List.pairwise_append.mpr ⟨h.sorted, List.pairwise_singleton _ _, ?_⟩
  intro g hg g' hg'
  obtain rfl := List.mem_singleton.mp hg'
  exact h.earlier hin g hg

theorem ServerInv.trash_bounds {rank : Rank} {server : Server} (h : ServerInv rank server)
    (hin : server.InBarrier) :
    ∀ g ∈ server.storeBarrierTrash ++ [server.storeBarrierCounter],
      1 ≤ g ∧ g ≤ server.storeBarrierCounter := by
  intro g hg
  rcases List.mem_append.mp hg with hg | hg
  · exact h.bounds g hg
  · obtain rfl := List.mem_singleton.mp hg
    exact ⟨h.positive hin, Nat.le_refl _⟩

/-- All ranks have arrived in what rank 0 has in its trash once it leaves a generation. -/
theorem BarrierInv.trash_kept (h : BarrierInv worldSize s) (hrank : 0 < worldSize)
    (hreleased : (s.store (.lastWorker (s.ranks 0).storeBarrierCounter)).isSome) :
    ∀ g ∈ (s.ranks 0).storeBarrierTrash ++ [(s.ranks 0).storeBarrierCounter],
      s.AllArrived worldSize g ∧ (s.store (.lastWorker g)).isSome ∧
        ∀ key ∈ s.deleted, key.generation < g := by
  intro g hg
  rcases List.mem_append.mp hg with hg | hg
  · exact h.kept g hg
  · obtain rfl := List.mem_singleton.mp hg
    exact ⟨h.released _ hreleased, hreleased, fun key hkey => (h.gone key hkey).2 0 hrank⟩

theorem BarrierInv.finish_other (h : BarrierInv worldSize s) {rank : Rank} (hne : rank ≠ 0)
    (hpc : (s.ranks rank).pc = .wait) :
    BarrierInv worldSize (s.setRank rank ((s.ranks rank).finish rank)) := by
  have hserver := h.server rank
  rw [Server.finish_other hne]
  refine h.setRank ?_ ?_ (Nat.le_refl _) (by simp) (fun heq => absurd heq hne) (by simp)
  · exact ⟨by simp [Server.InBarrier], fun hne => ⟨(hserver.cleaner hne).1, by simp⟩,
      hserver.sorted, hserver.bounds, by simp [Server.InBarrier], by simp⟩
  · simp [Server.arrivals, hpc]

/-- Rank 0 leaves the barrier and may start to delete a generation that it has left long
before, and all ranks with it. -/
theorem BarrierInv.finish_zero (h : BarrierInv worldSize s) (hrank : 0 < worldSize)
    (hpc : (s.ranks 0).pc = .wait)
    (hreleased : (s.store (.lastWorker (s.ranks 0).storeBarrierCounter)).isSome) :
    BarrierInv worldSize (s.setRank 0 ((s.ranks 0).finish 0)) := by
  have hserver := h.server 0
  have hin : (s.ranks 0).InBarrier := .inr (.inr (.inr hpc))
  have hsorted := hserver.trash_sorted hin
  have hbounds := hserver.trash_bounds hin
  have hkept := h.trash_kept hrank hreleased
  have hbehind : ∀ n < (s.ranks 0).storeBarrierCounter, ∀ other < worldSize,
      n < (s.ranks other).storeBarrierCounter := fun n hn other hother =>
    Nat.lt_of_lt_of_le hn (Nat.le_trans (h.released _ hreleased other hother) (arrivals_le _))
  rcases Server.finish_zero (s.ranks 0) with ⟨-, hfinish⟩ | ⟨stale, next, rest, htrash, hfinish⟩
  · rw [hfinish]
    refine h.setRank ?_ ?_ (Nat.le_refl _) (by simp) (fun _ => hkept) (by simp)
    · exact ⟨by simp [Server.InBarrier], fun hne => absurd rfl hne, hsorted, hbounds,
        by simp [Server.InBarrier], by simp⟩
    · simp [Server.arrivals, hpc]
  · rw [hfinish]
    rw [htrash] at hsorted hbounds hkept
    obtain ⟨hstale, hsorted⟩ := List.pairwise_cons.mp hsorted
    have hold := hserver.earlier hin stale (by simp [htrash])
    refine h.setRank ?_ ?_ (Nat.le_refl _) (by simp) ?_ ?_
    · refine ⟨by simp [Server.InBarrier], fun hne => absurd rfl hne, hsorted,
        fun g hg => hbounds g (List.mem_cons_of_mem _ hg), by simp [Server.InBarrier], ?_⟩
      rintro key hkey
      obtain rfl := Pc.delete.inj hkey
      exact ⟨(hbounds stale List.mem_cons_self).1, hstale⟩
    · simp [Server.arrivals, hpc]
    · exact fun _ g hg => hkept g (List.mem_cons_of_mem _ hg)
    · rintro - key hkey
      obtain rfl := Pc.delete.inj hkey
      exact ⟨hbehind stale hold,
        fun old hold => .inl ((hkept stale List.mem_cons_self).2.2 old hold)⟩

/-- A rank leaves the barrier normally. -/
theorem BarrierInv.finish (h : BarrierInv worldSize s) {rank : Rank} (hrank : rank < worldSize)
    (hpc : (s.ranks rank).pc = .wait)
    (hreleased : (s.store (.lastWorker (s.ranks rank).storeBarrierCounter)).isSome) :
    BarrierInv worldSize (s.setRank rank ((s.ranks rank).finish rank)) := by
  by_cases hne : rank ≠ 0
  · exact h.finish_other hne hpc
  · obtain rfl : rank = 0 := not_not.mp hne
    exact h.finish_zero hrank hpc hreleased

/-- The key about to be deleted has not been deleted before. -/
theorem BarrierInv.not_deleted (h : BarrierInv worldSize s) {key : Key}
    (hpc : (s.ranks 0).pc = .delete key) : key ∉ s.deleted := by
  intro hmem
  rcases (h.deleting key hpc).2 key hmem with hlt | ⟨harrived, hlast⟩
  · exact Nat.lt_irrefl _ hlt
  · rw [harrived] at hlast
    cases hlast

/-- Deleting a key is not arriving. -/
theorem arrivals_afterDelete {server : Server} {key : Key} (hpc : server.pc = .delete key) :
    ({ server with pc := .afterDelete key } : Server).arrivals = server.arrivals := by
  cases key <;> simp [Server.arrivals, hpc, Pc.afterDelete]

/-- Rank 0 goes on to the other key of the generation, or has deleted both. -/
theorem ServerInv.afterDelete {server : Server} (h : ServerInv 0 server) {key : Key}
    (hpc : server.pc = .delete key) : ServerInv 0 { server with pc := .afterDelete key } := by
  refine ⟨?_, fun hne => absurd rfl hne, h.sorted, h.bounds, ?_, ?_⟩
  · cases key <;> simp [Server.InBarrier, Pc.afterDelete]
  · cases key <;> simp [Server.InBarrier, Pc.afterDelete]
  · cases key with
    | arrived generation =>
        intro next hnext
        obtain rfl := Pc.delete.inj hnext
        exact h.deleting (.arrived generation) hpc
    | lastWorker generation => simp [Pc.afterDelete]

/-- Rank 0 has deleted a key. -/
def State.afterDelete (s : State) (key : Key) : State :=
  { s.setRank 0 { s.ranks 0 with pc := .afterDelete key } with
    store := s.store.deleteKey key
    deleted := s.deleted ++ [key] }

theorem afterDelete_zero (key : Key) :
    (s.afterDelete key).ranks 0 = { s.ranks 0 with pc := .afterDelete key } :=
  State.setRank_self s 0 _

theorem afterDelete_other (key : Key) {other : Rank} (hne : other ≠ 0) :
    (s.afterDelete key).ranks other = s.ranks other :=
  State.setRank_other hne s _

theorem afterDelete_store {key other : Key} (hne : other ≠ key) :
    (s.afterDelete key).store other = s.store other :=
  Function.update_of_ne hne _ _

theorem afterDelete_store_self (key : Key) : (s.afterDelete key).store key = none :=
  Function.update_self _ _ _

theorem mem_afterDelete_deleted {key old : Key} :
    old ∈ (s.afterDelete key).deleted ↔ old ∈ s.deleted ∨ old = key := by
  simp [State.afterDelete]

theorem afterDelete_allArrived {key : Key} (hpc : (s.ranks 0).pc = .delete key)
    {generation : Nat} (hall : s.AllArrived worldSize generation) :
    (s.afterDelete key).AllArrived worldSize generation :=
  allArrived_setRank (Nat.le_of_eq (arrivals_afterDelete hpc).symm) hall

theorem afterDelete_counter (key : Key) {n : Nat}
    (hall : ∀ other < worldSize, n < (s.ranks other).storeBarrierCounter) :
    ∀ other < worldSize, n < ((s.afterDelete key).ranks other).storeBarrierCounter :=
  @counter_setRank worldSize s 0 { s.ranks 0 with pc := .afterDelete key } (Nat.le_refl _) n hall

/-- The counts of the other keys stay. -/
theorem BarrierInv.delete_counts (h : BarrierInv worldSize s) {key : Key}
    (hpc : (s.ranks 0).pc = .delete key) {generation : Nat} (hpos : 1 ≤ generation)
    (hkey : .arrived generation ∉ (s.afterDelete key).deleted) :
    (s.afterDelete key).store (.arrived generation) =
      if (s.afterDelete key).arrivedCount worldSize generation = 0 then none
      else some ((s.afterDelete key).arrivedCount worldSize generation) := by
  obtain ⟨hnot, hne⟩ := not_or.mp (mt mem_afterDelete_deleted.mpr hkey)
  have hcount : (s.afterDelete key).arrivedCount worldSize generation =
      s.arrivedCount worldSize generation :=
    arrivedCount_setRank (arrivals_afterDelete hpc) generation
  rw [afterDelete_store hne, hcount]
  exact h.counts generation hpos hnot

/-- What is still released was so before. -/
theorem BarrierInv.delete_released (h : BarrierInv worldSize s) {key : Key}
    (hpc : (s.ranks 0).pc = .delete key) {generation : Nat}
    (hsome : ((s.afterDelete key).store (.lastWorker generation)).isSome) :
    (s.afterDelete key).AllArrived worldSize generation := by
  refine afterDelete_allArrived hpc (h.released generation ?_)
  rcases eq_or_ne (.lastWorker generation) key with heq | hne
  · rw [heq, afterDelete_store_self] at hsome
    cases hsome
  · rwa [afterDelete_store hne] at hsome

/-- Rank 0 has nothing to announce, and the others announce what they did before. -/
theorem BarrierInv.delete_announcing (h : BarrierInv worldSize s) {key : Key}
    (hpc : (s.ranks 0).pc = .delete key) {other : Rank} (hother : other < worldSize)
    (hannounce : ((s.afterDelete key).ranks other).pc = .announce) :
    (s.afterDelete key).AllArrived worldSize
      ((s.afterDelete key).ranks other).storeBarrierCounter := by
  rcases eq_or_ne other 0 with rfl | hne
  · rw [afterDelete_zero] at hannounce
    cases key <;> cases hannounce
  · rw [afterDelete_other key hne] at hannounce ⊢
    exact afterDelete_allArrived hpc (h.announcing other hother hannounce)

/-- No deleted key is in the store, and all ranks are past its generation. -/
theorem BarrierInv.delete_gone (h : BarrierInv worldSize s) {key old : Key}
    (hpc : (s.ranks 0).pc = .delete key) (hmem : old ∈ (s.afterDelete key).deleted) :
    (s.afterDelete key).store old = none ∧ ∀ other < worldSize,
      old.generation < ((s.afterDelete key).ranks other).storeBarrierCounter := by
  rcases eq_or_ne old key with rfl | hne
  · exact ⟨afterDelete_store_self _, afterDelete_counter _ (h.deleting _ hpc).1⟩
  · obtain ⟨hnone, hlt⟩ := h.gone old ((mem_afterDelete_deleted.mp hmem).resolve_right hne)
    exact ⟨(afterDelete_store hne).trans hnone, afterDelete_counter _ hlt⟩

/-- The trash is of later generations than the key. -/
theorem BarrierInv.delete_kept (h : BarrierInv worldSize s) {key : Key}
    (hpc : (s.ranks 0).pc = .delete key) {generation : Nat}
    (hmem : generation ∈ ((s.afterDelete key).ranks 0).storeBarrierTrash) :
    (s.afterDelete key).AllArrived worldSize generation ∧
      ((s.afterDelete key).store (.lastWorker generation)).isSome ∧
      ∀ old ∈ (s.afterDelete key).deleted, old.generation < generation := by
  rw [afterDelete_zero] at hmem
  obtain ⟨harrived, hsome, hdeleted⟩ := h.kept generation hmem
  have hlt := ((h.server 0).deleting key hpc).2 generation hmem
  have hne : .lastWorker generation ≠ key := by
    rintro rfl
    exact Nat.lt_irrefl _ hlt
  refine ⟨afterDelete_allArrived hpc harrived, by rwa [afterDelete_store hne], fun old hold => ?_⟩
  rcases mem_afterDelete_deleted.mp hold with hold | rfl
  · exact hdeleted old hold
  · exact hlt

/-- After the count of a generation its announcement is deleted, and nothing else of it. -/
theorem BarrierInv.delete_deleting (h : BarrierInv worldSize s) {key next : Key}
    (hpc : (s.ranks 0).pc = .delete key)
    (hnext : ((s.afterDelete key).ranks 0).pc = .delete next) :
    (∀ other < worldSize,
      next.generation < ((s.afterDelete key).ranks other).storeBarrierCounter) ∧
      ∀ old ∈ (s.afterDelete key).deleted, old.generation < next.generation ∨
        old = .arrived next.generation ∧ next = .lastWorker next.generation := by
  obtain ⟨hbehind, hold⟩ := h.deleting key hpc
  rw [afterDelete_zero] at hnext
  cases key with
  | lastWorker generation => cases hnext
  | arrived generation =>
      obtain rfl := Pc.delete.inj hnext
      refine ⟨afterDelete_counter _ hbehind, fun old hmem => ?_⟩
      rcases mem_afterDelete_deleted.mp hmem with hmem | rfl
      · rcases hold old hmem with hlt | ⟨-, hkey⟩
        · exact .inl hlt
        · cases hkey
      · exact .inr ⟨rfl, rfl⟩

/-- Rank 0 deletes a key. -/
theorem BarrierInv.delete (h : BarrierInv worldSize s) {rank : Rank} {key : Key}
    (hpc : (s.ranks rank).pc = .delete key) :
    BarrierInv worldSize
      { s.setRank rank { s.ranks rank with pc := .afterDelete key } with
        store := s.store.deleteKey key
        deleted := s.deleted ++ [key] } := by
  obtain rfl : rank = 0 := by
    by_contra hne
    exact ((h.server rank).cleaner hne).2 key hpc
  show BarrierInv worldSize (s.afterDelete key)
  refine
    { server := fun other => ?_
      counts := fun generation hpos hkey => h.delete_counts hpc hpos hkey
      released := fun generation hsome => h.delete_released hpc hsome
      announcing := fun other hother hannounce => h.delete_announcing hpc hother hannounce
      gone := fun old hmem => h.delete_gone hpc hmem
      kept := fun generation hmem => h.delete_kept hpc hmem
      deleting := fun next hnext => h.delete_deleting hpc hnext
      nodup := ?_ }
  · rcases eq_or_ne other 0 with rfl | hne
    · rw [afterDelete_zero]
      exact (h.server 0).afterDelete hpc
    · rw [afterDelete_other key hne]
      exact h.server other
  · refine List.nodup_append.mpr ⟨h.nodup, by simp, ?_⟩
    intro old hmem other hother heq
    obtain rfl := List.mem_singleton.mp hother
    exact h.not_deleted hpc (heq ▸ hmem)

theorem BarrierInv.change {reaches : Nat → Rank → Bool} {t : State} {rank : Rank}
    (h : BarrierInv worldSize s) (hrank : rank < worldSize)
    (hchange : Change worldSize reaches s rank t) : BarrierInv worldSize t := by
  cases hchange with
  | skip hpc _ => exact h.skip hpc
  | enter hpc _ => exact h.enter hpc _
  | arrive hpc => exact h.arrive hrank hpc
  | read pc hpc hnext => exact h.read hrank hpc hnext
  | announce hpc => exact h.announce hrank hpc
  | finish hpc hreleased => exact h.finish hrank hpc hreleased
  | delete key hpc => exact h.delete hpc

theorem BarrierInv.step {reaches : Nat → Rank → Bool} {t : State} {move : Move}
    (h : BarrierInv worldSize s) (hstep : s.step worldSize reaches move = some t) :
    BarrierInv worldSize t := by
  obtain ⟨rank, hrank, ⟨-, hchange⟩ | ⟨-, hpc, rfl⟩⟩ := State.step_cases hstep
  · exact h.change hrank hchange
  · exact h.timeout hpc

end Step

theorem barrierInv {worldSize : Nat} {reaches : Nat → Rank → Bool} {s : State}
    (h : (barriers worldSize reaches).Reachable s) : BarrierInv worldSize s :=
  h.invariant barrierInv_init fun _ _ _ _ hinv hstep => hinv.step hstep

/-- What has been deleted stays in the list. -/
theorem deleted_steps {worldSize : Nat} {reaches : Nat → Rank → Bool} {s t : State}
    (h : (barriers worldSize reaches).Reachable s) (hst : (barriers worldSize reaches).Steps s t)
    {key : Key} (hkey : key ∈ s.deleted) : key ∈ t.deleted := by
  refine @Machine.Steps.invariant _ _ _ (fun s => key ∈ s.deleted) ?_ s t h hkey hst
  intro s move t _ hkey hstep
  obtain ⟨rank, -, ⟨-, hchange⟩ | ⟨-, -, rfl⟩⟩ := State.step_cases hstep
  · cases hchange with
    | skip | enter | arrive | read | announce | finish => exact hkey
    | delete => exact List.mem_append_left _ hkey
  · exact hkey

/-! ## Without timeouts -/

/-- The move is no timeout. -/
def NoTimeout (_ : State) (move : Move) : Prop := ∀ rank, move ≠ .timeout rank

/-- The generation a rank has left last, when it has left all. -/
def Server.completed (server : Server) : Nat :=
  match server.pc with
  | .outside | .delete _ => server.storeBarrierCounter
  | .arrive | .read | .announce | .wait => server.storeBarrierCounter - 1

/-- The two latest of the first `n` generations. -/
def lastTwo : Nat → List Nat
  | 0 => []
  | 1 => [1]
  | n + 2 => [n + 1, n + 2]

theorem length_lastTwo (n : Nat) : (lastTwo n).length = min n 2 := by
  match n with
  | 0 | 1 => rfl
  | n + 2 =>
      show 2 = min (n + 2) 2
      omega

theorem mem_lastTwo {g n : Nat} (hpos : 1 ≤ g) (hle : g ≤ n) (hrecent : n ≤ g + 1) :
    g ∈ lastTwo n := by
  match n with
  | 0 => omega
  | 1 =>
      obtain rfl : g = 1 := by omega
      exact List.mem_singleton_self 1
  | n + 2 =>
      have : g = n + 1 ∨ g = n + 2 := by omega
      simpa [lastTwo] using this

/-- The key is being deleted, or its turn is next. -/
def Pc.Pending (pc : Pc) (key : Key) : Prop :=
  pc = .delete key ∨ key = .lastWorker key.generation ∧ pc = .delete (.arrived key.generation)

/-- Rank 0 has the two latest generations it has completed in its trash, and all earlier
ones are deleted or about to be. -/
structure Swept (s : State) : Prop where
  trash : (s.ranks 0).storeBarrierTrash = lastTwo (s.ranks 0).completed
  swept : ∀ key, 1 ≤ key.generation → key.generation + 2 ≤ (s.ranks 0).completed →
    key ∈ s.deleted ∨ (s.ranks 0).pc.Pending key

theorem not_pending_of_not_delete {pc : Pc} {key : Key} (h : ∀ key, pc ≠ .delete key) :
    ¬ pc.Pending key := by
  rintro (heq | ⟨-, heq⟩)
  · exact h _ heq
  · exact h _ heq

/-- Rank 0 moves on inside or into a barrier. -/
theorem Swept.move {s : State} (h : Swept s) {server : Server} (store : Store)
    (htrash : server.storeBarrierTrash = (s.ranks 0).storeBarrierTrash)
    (hcompleted : server.completed = (s.ranks 0).completed)
    (hpc : ∀ key, (s.ranks 0).pc ≠ .delete key) : Swept { s.setRank 0 server with store } := by
  have hself : (s.setRank 0 server).ranks 0 = server := State.setRank_self s 0 server
  constructor
  · rw [show State.ranks _ 0 = _ from hself, htrash, hcompleted, h.trash]
  · intro key hpos hle
    rw [show State.ranks _ 0 = _ from hself, hcompleted] at hle
    exact .inl ((h.swept key hpos hle).resolve_right (not_pending_of_not_delete hpc))

/-- Rank 0 leaves a generation normally: the oldest of three is next to be deleted. -/
theorem Swept.finish {s : State} (h : Swept s) (hpc : (s.ranks 0).pc = .wait)
    (hpositive : 1 ≤ (s.ranks 0).storeBarrierCounter) :
    Swept (s.setRank 0 ((s.ranks 0).finish 0)) := by
  have hnot : ∀ key, (s.ranks 0).pc ≠ .delete key := by simp [hpc]
  obtain ⟨m, hm⟩ : ∃ m, (s.ranks 0).storeBarrierCounter = m + 1 :=
    ⟨(s.ranks 0).storeBarrierCounter - 1, by omega⟩
  have hbefore : (s.ranks 0).completed = m := by simp [Server.completed, hpc, hm]
  have htrash := h.trash
  rw [hbefore] at htrash
  have hdeleted : ∀ key, 1 ≤ key.generation → key.generation + 2 ≤ m → key ∈ s.deleted :=
    fun key hpos hle => (h.swept key hpos (hbefore ▸ hle)).resolve_right
      (not_pending_of_not_delete hnot)
  rcases Server.finish_zero (s.ranks 0) with ⟨hshort, hfinish⟩ | ⟨stale, next, rest, hlong, hfinish⟩
  · rw [hfinish]
    rw [htrash] at hshort
    rw [length_lastTwo] at hshort
    have hsmall : m = 0 ∨ m = 1 := by omega
    constructor
    · rw [State.setRank_self]
      simp only [Server.completed, hm, htrash]
      rcases hsmall with rfl | rfl <;> rfl
    · intro key hpos hle
      rw [State.setRank_self] at hle
      simp only [Server.completed, hm] at hle
      exact absurd hpos (by omega)
  · rw [hfinish]
    rw [htrash] at hlong
    obtain ⟨n, rfl⟩ : ∃ n, m = n + 2 := by
      have hlength := congrArg List.length hlong
      rw [length_lastTwo, List.length_cons, List.length_cons] at hlength
      exact ⟨m - 2, by omega⟩
    obtain ⟨rfl, rfl, rfl⟩ : n + 1 = stale ∧ n + 2 = next ∧ [] = rest := by
      simpa [lastTwo] using hlong
    constructor
    · rw [State.setRank_self]
      simp only [Server.completed, hm]
      rfl
    · intro key hpos hle
      rw [State.setRank_self] at hle ⊢
      simp only [Server.completed, hm] at hle
      by_cases hnew : key.generation = n + 1
      · -- the generation just taken out of the trash
        right
        cases key with
        | arrived generation =>
            obtain rfl : generation = n + 1 := hnew
            exact .inl rfl
        | lastWorker generation =>
            obtain rfl : generation = n + 1 := hnew
            exact .inr ⟨rfl, rfl⟩
      · exact .inl (hdeleted key hpos (by omega))

/-- Rank 0 deletes a key. -/
theorem Swept.delete {s : State} (h : Swept s) {key : Key} (hpc : (s.ranks 0).pc = .delete key) :
    Swept { s.setRank 0 { s.ranks 0 with pc := .afterDelete key } with
      store := s.store.deleteKey key
      deleted := s.deleted ++ [key] } := by
  have hself : (s.setRank 0 { s.ranks 0 with pc := .afterDelete key }).ranks 0 =
      { s.ranks 0 with pc := .afterDelete key } := State.setRank_self _ _ _
  have hcompleted : ({ s.ranks 0 with pc := .afterDelete key } : Server).completed =
      (s.ranks 0).completed := by
    cases key <;> simp [Server.completed, Pc.afterDelete, hpc]
  constructor
  · rw [show State.ranks _ 0 = _ from hself, hcompleted]
    exact h.trash
  · intro other hpos hle
    rw [show State.ranks _ 0 = _ from hself] at hle ⊢
    rw [hcompleted] at hle
    rcases h.swept other hpos hle with hold | hpending | ⟨hlast, hpending⟩
    · exact .inl (List.mem_append_left _ hold)
    · rw [hpc] at hpending
      obtain rfl := Pc.delete.inj hpending
      exact .inl (List.mem_append_right _ (List.mem_singleton_self _))
    · -- its turn is next
      rw [hpc] at hpending
      obtain rfl := Pc.delete.inj hpending
      exact .inr (.inl (by rw [hlast]; rfl))

theorem Swept.change {worldSize : Nat} {reaches : Nat → Rank → Bool} {s t : State} {rank : Rank}
    (h : Swept s) (hinv : BarrierInv worldSize s) (hchange : Change worldSize reaches s rank t) :
    Swept t := by
  by_cases hzero : rank ≠ 0
  · -- another rank: nothing of rank 0 changes, and only rank 0 deletes
    have hkeep : ∀ server store, Swept { s.setRank rank server with store } := by
      intro server store
      have hother : (s.setRank rank server).ranks 0 = s.ranks 0 :=
        State.setRank_other hzero.symm s server
      constructor
      · rw [show State.ranks _ 0 = _ from hother, h.trash]
      · rw [show State.ranks _ 0 = _ from hother]
        exact h.swept
    cases hchange with
    | skip | enter | arrive | read | announce | finish => exact hkeep _ _
    | delete key hpc => exact absurd hpc ((hinv.server rank).cleaner hzero |>.2 key)
  · obtain rfl : rank = 0 := not_not.mp hzero
    cases hchange with
    | skip hpc _ => exact h.move s.store rfl rfl (by simp [hpc])
    | enter hpc _ => exact h.move s.store rfl (by simp [Server.completed, hpc]) (by simp [hpc])
    | arrive hpc => exact h.move _ rfl (by simp [Server.completed, hpc]) (by simp [hpc])
    | read pc hpc hnext =>
        refine h.move _ rfl ?_ (by simp [hpc])
        rcases hnext with rfl | ⟨rfl, -⟩ <;> simp [Server.completed, hpc]
    | announce hpc => exact h.move _ rfl (by simp [Server.completed, hpc]) (by simp [hpc])
    | finish hpc _ =>
        exact h.finish hpc ((hinv.server 0).positive (.inr (.inr (.inr hpc))))
    | delete key hpc => exact h.delete hpc

theorem swept {worldSize : Nat} {reaches : Nat → Rank → Bool} {s : State}
    (h : (barriers worldSize reaches).ReachableBy NoTimeout s) : Swept s := by
  have hboth : BarrierInv worldSize s ∧ Swept s := by
    refine @Machine.ReachableBy.invariant _ _ _ _
      (fun s => BarrierInv worldSize s ∧ Swept s) ?_ ?_ s h
    · refine ⟨barrierInv_init, rfl, fun key _ hle => ?_⟩
      exact absurd hle (by simp [barriers, Server.fresh, Server.completed])
    · rintro s move t ⟨hinv, hswept⟩ hmove hstep
      refine ⟨hinv.step hstep, ?_⟩
      obtain ⟨rank, -, ⟨-, hchange⟩ | ⟨hmove', -⟩⟩ := State.step_cases hstep
      · exact hswept.change hinv hchange
      · exact absurd hmove' (hmove rank)
  exact hboth.2

/-! ## Stale keys -/

/-- In any interleaving, with any timeouts and any updates that do not reach their
barrier: rank 0 deletes keys of a generation only when every rank has entered and left
it, a deleted key does not come back, and none is deleted twice.  Where no barrier has
timed out, the keys that are left when rank 0 has completed generation `N` are those of
its two latest generations. -/
theorem staleKeys_deleted_safely {worldSize : Nat} {reaches : Nat → Rank → Bool} {s : State}
    (h : (barriers worldSize reaches).Reachable s) :
    (∀ move t key, (barriers worldSize reaches).step s move = some t →
      t.deleted = s.deleted ++ [key] →
        move = .next 0 ∧ ∀ rank < worldSize,
          key.generation ≤ (s.ranks rank).storeBarrierCounter ∧
            ¬ ((s.ranks rank).InBarrier ∧
              (s.ranks rank).storeBarrierCounter = key.generation)) ∧
      (∀ key ∈ s.deleted, ∀ t, (barriers worldSize reaches).Steps s t → t.store key = none) ∧
      s.deleted.Nodup ∧
      (0 < worldSize → (barriers worldSize reaches).ReachableBy NoTimeout s →
        (s.ranks 0).pc = .outside → 1 ≤ (s.ranks 0).storeBarrierCounter →
          ∀ key, 1 ≤ key.generation → key.generation ≤ (s.ranks 0).storeBarrierCounter →
            (s.store key ≠ none ↔
              max 1 ((s.ranks 0).storeBarrierCounter - 1) ≤ key.generation)) := by
  have hinv := barrierInv h
  refine ⟨?_, fun key hkey t hst => ?_, hinv.nodup, ?_⟩
  · intro move t key hstep hdeleted
    have hsame : t.deleted ≠ s.deleted := by
      rw [hdeleted]
      simp
    obtain ⟨rank, -, ⟨rfl, hchange⟩ | ⟨-, -, rfl⟩⟩ := State.step_cases hstep
    · cases hchange with
      | skip | enter | arrive | read | announce | finish => exact absurd rfl hsame
      | delete key' hpc =>
          obtain rfl : key' = key := by simpa using hdeleted
          obtain rfl : rank = 0 := by
            by_contra hne
            exact ((hinv.server rank).cleaner hne).2 key' hpc
          refine ⟨rfl, fun other hother => ?_⟩
          have hbehind := (hinv.deleting key' hpc).1 other hother
          exact ⟨Nat.le_of_lt hbehind, fun hin => by omega⟩
    · exact absurd rfl hsame
  · exact ((barrierInv (h.steps hst)).gone key (deleted_steps h hst hkey)).1
  · intro hworld hby hpc hpositive key hpos hle
    have hswept := swept hby
    have hcompleted : (s.ranks 0).completed = (s.ranks 0).storeBarrierCounter := by
      simp [Server.completed, hpc]
    constructor
    · -- an older key has been deleted
      intro hstore
      by_contra hold
      rcases hswept.swept key hpos (by omega) with hdeleted | hpending
      · exact hstore (hinv.gone key hdeleted).1
      · exact not_pending_of_not_delete (by simp [hpc]) hpending
    · intro hrecent
      have hmem : key.generation ∈ (s.ranks 0).storeBarrierTrash := by
        rw [hswept.trash, hcompleted]
        exact mem_lastTwo hpos hle (by omega)
      obtain ⟨hall, hlast, hdeleted⟩ := hinv.kept key.generation hmem
      have hnot : key ∉ s.deleted := fun hin => Nat.lt_irrefl _ (hdeleted key hin)
      cases key with
      | lastWorker generation => exact Option.isSome_iff_ne_none.mp hlast
      | arrived generation =>
          have hcount : s.arrivedCount worldSize generation ≠ 0 := by
            refine Nat.ne_of_gt (List.countP_pos_iff.mpr ⟨0, List.mem_range.mpr hworld, ?_⟩)
            exact decide_eq_true (hall 0 hworld)
          rw [hinv.counts generation hpos hnot, if_neg hcount]
          exact Option.some_ne_none _

/-- Two ranks in step through a generation; rank 1 is the last to read. -/
def oneGeneration : List Move :=
  [.next 0, .next 0, .next 0, .next 1, .next 1, .next 1, .next 1, .next 1, .next 0]

/-- After three generations and the two deletes of the first one. -/
theorem staleKeys_deleted_safely_threeGenerations :
    ∃ s, (barriers 2 fun _ _ => true).Reachable s ∧
      s.deleted = [.arrived 1, .lastWorker 1] ∧
      (∀ key ∈ s.deleted, ∀ t, (barriers 2 fun _ _ => true).Steps s t → t.store key = none) ∧
      ∀ key : Key, 1 ≤ key.generation → key.generation ≤ 3 →
        (s.store key ≠ none ↔ 2 ≤ key.generation) := by
  have hmoves := @Machine.exists_of_run _ _ (barriers 2 fun _ _ => true)
    (fun s => s.deleted = [.arrived 1, .lastWorker 1] ∧ (s.ranks 0).pc = .outside ∧
      (s.ranks 0).storeBarrierCounter = 3) inferInstance
    (oneGeneration ++ oneGeneration ++ oneGeneration ++ [.next 0, .next 0]) (by decide +kernel)
  obtain ⟨s, hrun, hdeleted, hpc, hcounter⟩ := hmoves
  have hby : (barriers 2 fun _ _ => true).ReachableBy NoTimeout s := by
    refine Machine.ReachableBy.run (fun _ move hmove rank heq => ?_) .init hrun
    subst heq
    simp [oneGeneration] at hmove
  have hreachable := Machine.steps_run hrun
  obtain ⟨-, hgone, -, hleft⟩ := staleKeys_deleted_safely hreachable
  refine ⟨s, hreachable, hdeleted, hgone, ?_⟩
  simpa [hcounter] using hleft (by decide) hby hpc (by omega)

end CheckpointEngine.Barrier
