/-
  `Barrier.Separation`: when the barrier keeps the updates of all ranks apart.

  Generations are numbered by each rank on its own, and a rank that raises before the
  barrier of an update does not use a number up.  From then on the ranks meet in one
  generation from different updates, so the barrier lets a rank go while another one
  has yet to enter the barrier of the same update.

  What decides is which ranks get to which barriers.  The barrier separates the updates
  of every run if and only if the ranks make their n-th calls in the same update, for
  every n that all of them get to.
-/
import CheckpointEngine.Barrier.Cleanup
import Mathlib.Data.Nat.Count

set_option autoImplicit false

namespace CheckpointEngine.Barrier

open CheckpointEngine.Foundation

/-- When a rank returns normally from the barrier of an update, every rank has entered
the barrier of that update. -/
def Separates (worldSize : Nat) (reaches : Nat → Rank → Bool) : Prop :=
  ∀ s, (barriers worldSize reaches).Reachable s →
    ∀ rank < worldSize, ∀ update ∈ (s.ranks rank).returned,
      ∀ other < worldSize, update ∈ (s.ranks other).entered

/-- In this update the rank calls the barrier after `n` earlier calls. -/
def CallsIn (reaches : Nat → Rank → Bool) (rank : Rank) (n update : Nat) : Prop :=
  reaches update rank = true ∧ Nat.count (fun u => reaches u rank) update = n

/-- The calls that have the same number on all ranks are made in the same update. -/
def Aligned (worldSize : Nat) (reaches : Nat → Rank → Bool) : Prop :=
  ∀ (n : Nat) (updateOf : Rank → Nat),
    (∀ rank < worldSize, CallsIn reaches rank n (updateOf rank)) →
      ∀ rank < worldSize, ∀ other < worldSize, updateOf rank = updateOf other

/-! ## What a rank's history says of it -/

/-- What a rank has counted and entered follows from the updates it has begun. -/
structure History (reaches : Nat → Rank → Bool) (rank : Rank) (server : Server) : Prop where
  counter : server.storeBarrierCounter = Nat.count (fun u => reaches u rank) server.updates
  entered : ∀ u, u ∈ server.entered ↔ u < server.updates ∧ reaches u rank = true
  current : server.InBarrier → ∃ u, server.updates = u + 1 ∧ reaches u rank = true

theorem history_fresh {reaches : Nat → Rank → Bool} (rank : Rank) :
    History reaches rank .fresh where
  counter := (Nat.count_zero _).symm
  entered := by simp [Server.fresh]
  current := by simp [Server.fresh, Server.InBarrier]

section Change

variable {worldSize : Nat} {reaches : Nat → Rank → Bool} {s t : State} {rank : Rank}

/-- A change is to the part of one rank. -/
theorem Change.other (h : Change worldSize reaches s rank t) {other : Rank}
    (hother : other ≠ rank) : t.ranks other = s.ranks other := by
  cases h <;> exact Function.update_of_ne hother _ _

/-- Leaving a barrier normally records it; the rest is rank 0's trash. -/
theorem finish_keeps (server : Server) (rank : Rank) :
    (server.finish rank).updates = server.updates ∧
      (server.finish rank).storeBarrierCounter = server.storeBarrierCounter ∧
      (server.finish rank).entered = server.entered ∧
      (server.finish rank).returned = server.returned ++ [server.updates - 1] ∧
      ((server.finish rank).pc = .outside ∨ ∃ key, (server.finish rank).pc = .delete key) := by
  unfold Server.finish
  split
  · simp
  · simp only
    split <;> simp

theorem not_inBarrier {server : Server}
    (h : server.pc = .outside ∨ ∃ key, server.pc = .delete key) : ¬ server.InBarrier := by
  rcases h with hpc | ⟨key, hpc⟩ <;> simp [Server.InBarrier, hpc]

/-- No change takes an arrival back. -/
theorem Change.arrivals (h : Change worldSize reaches s rank t) :
    (s.ranks rank).arrivals ≤ (t.ranks rank).arrivals := by
  cases h with
  | skip => rw [State.setRank_self]; exact Nat.le_refl _
  | enter hpc =>
      rw [State.setRank_self]
      simp [Server.arrivals, hpc]
  | arrive hpc | announce hpc =>
      rw [show State.ranks _ rank = _ from State.setRank_self s rank _]
      simp [Server.arrivals, hpc]
  | read pc hpc hnext =>
      rw [show State.ranks _ rank = _ from State.setRank_self s rank _]
      rcases hnext with rfl | ⟨rfl, -⟩ <;> simp [Server.arrivals, hpc]
  | finish hpc =>
      rw [State.setRank_self]
      obtain ⟨-, hcounter, -, -, hout⟩ := finish_keeps (s.ranks rank) rank
      have hne : ((s.ranks rank).finish rank).pc ≠ .arrive := fun heq =>
        not_inBarrier hout (.inl heq)
      simp [Server.arrivals, hpc, hne, hcounter]
  | delete key hpc =>
      rw [show State.ranks _ rank = _ from State.setRank_self s rank _]
      cases key <;> simp [Server.arrivals, hpc, Pc.afterDelete]

theorem Change.allArrived (h : Change worldSize reaches s rank t) {generation : Nat}
    (hall : s.AllArrived worldSize generation) : t.AllArrived worldSize generation := by
  intro other hother
  by_cases heq : other = rank
  · subst heq
    exact Nat.le_trans (hall other hother) h.arrivals
  · rw [h.other heq]
    exact hall other hother

theorem Change.history (h : Change worldSize reaches s rank t)
    (hinv : History reaches rank (s.ranks rank)) : History reaches rank (t.ranks rank) := by
  cases h with
  | skip hpc hreaches =>
      rw [State.setRank_self]
      constructor
      · show (s.ranks rank).storeBarrierCounter = _
        rw [Nat.count_succ, hinv.counter]
        simp [hreaches]
      · intro u
        show u ∈ (s.ranks rank).entered ↔ u < (s.ranks rank).updates + 1 ∧ _
        rw [hinv.entered]
        refine and_congr_left fun hu => ?_
        have hne : u ≠ (s.ranks rank).updates := by
          intro heq
          rw [heq, hreaches] at hu
          cases hu
        omega
      · intro hin
        simp [Server.InBarrier, hpc] at hin
  | enter hpc hreaches =>
      rw [State.setRank_self]
      constructor
      · show (s.ranks rank).storeBarrierCounter + 1 = _
        rw [Nat.count_succ, hinv.counter]
        simp [hreaches]
      · intro u
        show u ∈ (s.ranks rank).entered ++ [(s.ranks rank).updates] ↔
          u < (s.ranks rank).updates + 1 ∧ _
        rw [List.mem_append, hinv.entered, List.mem_singleton]
        constructor
        · rintro (⟨hlt, hu⟩ | rfl)
          · exact ⟨Nat.lt_succ_of_lt hlt, hu⟩
          · exact ⟨Nat.lt_succ_self _, hreaches⟩
        · rintro ⟨hlt, hu⟩
          rcases Nat.lt_succ_iff_lt_or_eq.mp hlt with hlt | heq
          · exact .inl ⟨hlt, hu⟩
          · exact .inr heq
      · exact fun _ => ⟨_, rfl, hreaches⟩
  | arrive hpc =>
      rw [show State.ranks _ rank = _ from State.setRank_self s rank _]
      exact ⟨hinv.counter, hinv.entered, fun _ => hinv.current (.inl hpc)⟩
  | read pc hpc =>
      rw [show State.ranks _ rank = _ from State.setRank_self s rank _]
      exact ⟨hinv.counter, hinv.entered, fun _ => hinv.current (.inr (.inl hpc))⟩
  | announce hpc =>
      rw [show State.ranks _ rank = _ from State.setRank_self s rank _]
      exact ⟨hinv.counter, hinv.entered, fun _ => hinv.current (.inr (.inr (.inl hpc)))⟩
  | finish =>
      rw [State.setRank_self]
      obtain ⟨hupdates, hcounter, hentered, -, hout⟩ := finish_keeps (s.ranks rank) rank
      constructor
      · rw [hcounter, hupdates, hinv.counter]
      · rw [hentered, hupdates]
        exact hinv.entered
      · exact fun hin => absurd hin (not_inBarrier hout)
  | delete key =>
      rw [show State.ranks _ rank = _ from State.setRank_self s rank _]
      refine ⟨hinv.counter, hinv.entered, fun hin => ?_⟩
      cases key <;> simp [Server.InBarrier, Pc.afterDelete] at hin

end Change

theorem history {worldSize : Nat} {reaches : Nat → Rank → Bool} {s : State}
    (h : (barriers worldSize reaches).Reachable s) (rank : Rank) :
    History reaches rank (s.ranks rank) := by
  refine h.invariant (I := fun s => History reaches rank (s.ranks rank)) (history_fresh rank) ?_
  intro s move t _ hinv hstep
  obtain ⟨mover, -, ⟨-, hchange⟩ | ⟨-, hpc, rfl⟩⟩ := State.step_cases hstep
  · by_cases heq : rank = mover
    · subst heq
      exact hchange.history hinv
    · rw [hchange.other heq]
      exact hinv
  · by_cases heq : rank = mover
    · subst heq
      rw [State.setRank_self]
      exact ⟨hinv.counter, hinv.entered, fun hin => by simp [Server.InBarrier] at hin⟩
    · rw [State.setRank_other heq]
      exact hinv

/-- A rank that has returned from the barrier of an update had called it there, and all
ranks have arrived in the generation that this call had. -/
theorem allArrived_of_returned {worldSize : Nat} {reaches : Nat → Rank → Bool} {s : State}
    (h : (barriers worldSize reaches).Reachable s) (rank : Rank) :
    ∀ update ∈ (s.ranks rank).returned, reaches update rank = true ∧
      s.AllArrived worldSize (Nat.count (fun u => reaches u rank) update + 1) := by
  refine h.invariant (I := fun s => ∀ update ∈ (s.ranks rank).returned,
    reaches update rank = true ∧
      s.AllArrived worldSize (Nat.count (fun u => reaches u rank) update + 1)) ?_ ?_
  · intro update hupdate
    simp [barriers, Server.fresh] at hupdate
  · intro s move t hs hinv hstep
    obtain ⟨mover, hmover, ⟨-, hchange⟩ | ⟨-, hpc, rfl⟩⟩ := State.step_cases hstep
    · have hold : ∀ update ∈ (s.ranks rank).returned, reaches update rank = true ∧
          t.AllArrived worldSize (Nat.count (fun u => reaches u rank) update + 1) :=
        fun update hupdate => ⟨(hinv update hupdate).1, hchange.allArrived (hinv update hupdate).2⟩
      by_cases heq : rank = mover
      · subst heq
        cases hchange with
        | skip | enter | arrive | read | announce | delete =>
            rw [show State.ranks _ rank = _ from State.setRank_self s rank _]
            exact hold
        | finish hpc hreleased =>
            rw [State.setRank_self, (finish_keeps _ _).2.2.2.1]
            intro update hupdate
            rcases List.mem_append.mp hupdate with hupdate | hupdate
            · exact hold update hupdate
            · -- the update it is in: its generation has been released
              have hhistory := history hs rank
              obtain ⟨u, hu, hreaches⟩ := hhistory.current (.inr (.inr (.inr hpc)))
              obtain rfl : update = u := by
                rw [List.mem_singleton.mp hupdate, hu, Nat.add_sub_cancel]
              have hcounter : (s.ranks rank).storeBarrierCounter =
                  Nat.count (fun u => reaches u rank) update + 1 := by
                rw [hhistory.counter, hu, Nat.count_succ, if_pos hreaches]
              refine ⟨hreaches, ?_⟩
              rw [← hcounter]
              refine Change.allArrived
                (.finish hpc hreleased : Change worldSize reaches s rank _) ?_
              exact (barrierInv hs).released _ hreleased
      · rw [hchange.other heq]
        exact hold
    · intro update hupdate
      have hsame : ((s.setRank mover { s.ranks mover with pc := .outside }).ranks rank).returned =
          (s.ranks rank).returned := by
        by_cases heq : rank = mover
        · subst heq
          rw [State.setRank_self]
        · rw [State.setRank_other heq]
      rw [hsame] at hupdate
      refine ⟨(hinv update hupdate).1, allArrived_setRank ?_ (hinv update hupdate).2⟩
      simp [Server.arrivals, hpc]

/-! ## Aligned calls -/

/-- Whoever has got to more than `n` calls has made the call with `n` before it. -/
theorem exists_callsIn {reaches : Nat → Rank → Bool} {rank : Rank} {n updates : Nat}
    (h : n < Nat.count (fun u => reaches u rank) updates) :
    ∃ update < updates, CallsIn reaches rank n update := by
  induction updates with
  | zero => simp at h
  | succ updates ih =>
      by_cases hearlier : n < Nat.count (fun u => reaches u rank) updates
      · obtain ⟨update, hlt, hcalls⟩ := ih hearlier
        exact ⟨update, Nat.lt_succ_of_lt hlt, hcalls⟩
      · rw [Nat.count_succ] at h
        have hreaches : reaches updates rank = true := by
          by_contra hnot
          rw [if_neg hnot] at h
          exact hearlier h
        rw [if_pos hreaches] at h
        exact ⟨updates, Nat.lt_succ_self _, hreaches, by omega⟩

theorem Aligned.separates {worldSize : Nat} {reaches : Nat → Rank → Bool}
    (h : Aligned worldSize reaches) : Separates worldSize reaches := by
  intro s hs rank hrank update hreturned other hother
  obtain ⟨hreaches, hall⟩ := allArrived_of_returned hs rank update hreturned
  have hcalls : ∀ r < worldSize, ∃ u < (s.ranks r).updates,
      CallsIn reaches r (Nat.count (fun u => reaches u rank) update) u := by
    intro r hr
    refine exists_callsIn ?_
    rw [← (history hs r).counter]
    exact Nat.lt_of_lt_of_le (Nat.lt_of_succ_le (hall r hr)) (arrivals_le _)
  choose! updateOf hbegun hupdateOf using hcalls
  have hsame : update = updateOf rank :=
    Nat.count_injective hreaches (hupdateOf rank hrank).1 (hupdateOf rank hrank).2.symm
  have hother' : updateOf rank = updateOf other :=
    h _ updateOf hupdateOf rank hrank other hother
  rw [hsame, hother']
  exact ((history hs other).entered _).mpr ⟨hbegun other hother, (hupdateOf other hother).1⟩

/-! ## Moving one rank alone -/

/-- Steps that leave the parts of the other ranks alone. -/
def Alone (worldSize : Nat) (reaches : Nat → Rank → Bool) (rank : Rank) (s t : State) : Prop :=
  (barriers worldSize reaches).Steps s t ∧ ∀ other, other ≠ rank → t.ranks other = s.ranks other

section Alone

variable {worldSize : Nat} {reaches : Nat → Rank → Bool} {rank : Rank}

theorem Alone.trans {s t u : State} (hst : Alone worldSize reaches rank s t)
    (htu : Alone worldSize reaches rank t u) : Alone worldSize reaches rank s u :=
  ⟨Relation.ReflTransGen.trans hst.1 htu.1,
    fun other hne => (htu.2 other hne).trans (hst.2 other hne)⟩

theorem Alone.next {s t : State} (hrank : rank < worldSize)
    (h : s.next worldSize reaches rank = some t) : Alone worldSize reaches rank s t := by
  have hstep : (barriers worldSize reaches).step s (.next rank) = some t := by
    simp [barriers, State.step, hrank, h]
  exact ⟨.single ⟨_, hstep⟩, fun other hne => (State.next_change h).other hne⟩

theorem exists_skip {s : State} (hrank : rank < worldSize) (hpc : (s.ranks rank).pc = .outside)
    (hreaches : reaches (s.ranks rank).updates rank = false) :
    ∃ t, Alone worldSize reaches rank s t ∧
      t.ranks rank = { s.ranks rank with updates := (s.ranks rank).updates + 1 } := by
  refine ⟨_, Alone.next hrank ?_, State.setRank_self s _ _⟩
  simp [State.next, hpc, Server.begin, hreaches]

theorem exists_enter {s : State} (hrank : rank < worldSize) (hpc : (s.ranks rank).pc = .outside)
    (hreaches : reaches (s.ranks rank).updates rank = true) :
    ∃ t, Alone worldSize reaches rank s t ∧ (t.ranks rank).pc = .arrive ∧
      (t.ranks rank).updates = (s.ranks rank).updates + 1 := by
  have hnext : s.next worldSize reaches rank =
      some (s.setRank rank ((s.ranks rank).begin true)) := by
    simp [State.next, hpc, hreaches]
  refine ⟨_, Alone.next hrank hnext, ?_, ?_⟩
  · rw [State.setRank_self]
    rfl
  · rw [State.setRank_self]
    rfl

theorem exists_arrive {s : State} (hrank : rank < worldSize) (hpc : (s.ranks rank).pc = .arrive) :
    ∃ t, Alone worldSize reaches rank s t ∧ t.ranks rank = { s.ranks rank with pc := .read } := by
  have hnext : s.next worldSize reaches rank =
      some { s.setRank rank { s.ranks rank with pc := .read } with
        store := s.store.add (.arrived (s.ranks rank).storeBarrierCounter) 1 } := by
    simp only [State.next, hpc]
  exact ⟨_, Alone.next hrank hnext, State.setRank_self s _ _⟩

/-- What a rank reads is what it has just counted in. -/
theorem exists_read {s : State} (hrank : rank < worldSize) (hpc : (s.ranks rank).pc = .read) :
    ∃ t pc, Alone worldSize reaches rank s t ∧ t.ranks rank = { s.ranks rank with pc } ∧
      (pc = .announce ∨
        pc = .wait ∧ s.store (.arrived (s.ranks rank).storeBarrierCounter) ≠ some worldSize) := by
  obtain ⟨pc, hnext, hpcs⟩ : ∃ pc, s.next worldSize reaches rank =
      some { s.setRank rank { s.ranks rank with pc } with
        store := s.store.add (.arrived (s.ranks rank).storeBarrierCounter) 0 } ∧
      (pc = .announce ∨ pc = .wait ∧
        s.store (.arrived (s.ranks rank).storeBarrierCounter) ≠ some worldSize) := by
    simp only [State.next, hpc]
    refine ⟨_, rfl, ?_⟩
    split
    · exact .inl rfl
    · next hworld =>
        refine .inr ⟨rfl, fun hstore => hworld ?_⟩
        rw [Store.add_zero hstore, hstore]
  exact ⟨_, pc, Alone.next hrank hnext, State.setRank_self s _ _, hpcs⟩

theorem exists_announce {s : State} (hrank : rank < worldSize)
    (hpc : (s.ranks rank).pc = .announce) :
    ∃ t, Alone worldSize reaches rank s t ∧ t.ranks rank = { s.ranks rank with pc := .wait } ∧
      (t.store (.lastWorker (s.ranks rank).storeBarrierCounter)).isSome := by
  have hnext : s.next worldSize reaches rank =
      some { s.setRank rank { s.ranks rank with pc := .wait } with
        store := s.store.set (.lastWorker (s.ranks rank).storeBarrierCounter) } := by
    simp only [State.next, hpc]
  refine ⟨_, Alone.next hrank hnext, State.setRank_self s _ _, ?_⟩
  simp [Store.set]

theorem exists_finish {s : State} (hrank : rank < worldSize) (hpc : (s.ranks rank).pc = .wait)
    (hreleased : (s.store (.lastWorker (s.ranks rank).storeBarrierCounter)).isSome) :
    ∃ t, Alone worldSize reaches rank s t ∧ t.ranks rank = (s.ranks rank).finish rank := by
  have hnext : s.next worldSize reaches rank =
      some (s.setRank rank ((s.ranks rank).finish rank)) := by
    simp only [State.next, hpc]
    rw [if_pos hreleased]
  exact ⟨_, Alone.next hrank hnext, State.setRank_self s _ _⟩

theorem exists_timeout {s : State} (hrank : rank < worldSize) (hpc : (s.ranks rank).pc = .wait) :
    ∃ t, Alone worldSize reaches rank s t ∧
      t.ranks rank = { s.ranks rank with pc := .outside } := by
  have hstep : (barriers worldSize reaches).step s (.timeout rank) =
      some (s.setRank rank { s.ranks rank with pc := .outside }) := by
    simp [barriers, State.step, hrank, hpc]
  exact ⟨_, ⟨.single ⟨_, hstep⟩, fun other hne => State.setRank_other hne s _⟩,
    State.setRank_self s _ _⟩

/-- A rank that has arrived can get to the wait and time out there. -/
theorem exists_giveUp {s : State} (hrank : rank < worldSize) (hpc : (s.ranks rank).pc = .read) :
    ∃ t, Alone worldSize reaches rank s t ∧ (t.ranks rank).pc = .outside ∧
      (t.ranks rank).updates = (s.ranks rank).updates := by
  obtain ⟨t, pc, hread, ht, hpcs⟩ := @exists_read worldSize reaches rank s hrank hpc
  have hwait : ∃ u, Alone worldSize reaches rank t u ∧
      u.ranks rank = { s.ranks rank with pc := .wait } := by
    rcases hpcs with rfl | ⟨rfl, -⟩
    · obtain ⟨u, hannounce, hu, -⟩ :=
        @exists_announce worldSize reaches rank t hrank (congrArg Server.pc ht)
      exact ⟨u, hannounce, by rw [hu, ht]⟩
    · exact ⟨t, ⟨.refl, fun _ _ => rfl⟩, ht⟩
  obtain ⟨u, hu, hserver⟩ := hwait
  obtain ⟨v, hv, hserver'⟩ :=
    @exists_timeout worldSize reaches rank u hrank (congrArg Server.pc hserver)
  refine ⟨v, (hread.trans hu).trans hv, congrArg Server.pc hserver', ?_⟩
  rw [hserver', hserver]

/-- A rank can make any number of updates without the others. -/
theorem exists_updates {s : State} (hrank : rank < worldSize)
    (hpc : (s.ranks rank).pc = .outside) (n : Nat) :
    ∃ t, Alone worldSize reaches rank s t ∧ (t.ranks rank).pc = .outside ∧
      (t.ranks rank).updates = (s.ranks rank).updates + n := by
  induction n with
  | zero => exact ⟨s, ⟨.refl, fun _ _ => rfl⟩, hpc, rfl⟩
  | succ n ih =>
      obtain ⟨t, ht, houtside, hupdates⟩ := ih
      cases hreaches : reaches (t.ranks rank).updates rank with
      | false =>
          obtain ⟨u, hu, hserver⟩ := exists_skip hrank houtside hreaches
          exact ⟨u, ht.trans hu, by rw [hserver, houtside], by rw [hserver, hupdates]; rfl⟩
      | true =>
          obtain ⟨u, hu, harrive, hbegun⟩ := exists_enter hrank houtside hreaches
          obtain ⟨v, hv, hserver⟩ := @exists_arrive worldSize reaches rank u hrank harrive
          obtain ⟨w, hw, hout, hlast⟩ :=
            @exists_giveUp worldSize reaches rank v hrank (congrArg Server.pc hserver)
          refine ⟨w, ((ht.trans hu).trans hv).trans hw, hout, ?_⟩
          rw [hlast, hserver, hbegun, hupdates]
          rfl

/-- Without the others a rank can get to any update whose barrier it reaches, and
arrive there. -/
theorem exists_arrival {s : State} (hrank : rank < worldSize) (hfresh : s.ranks rank = .fresh)
    {update : Nat} (hreaches : reaches update rank = true) :
    ∃ t, Alone worldSize reaches rank s t ∧ (t.ranks rank).pc = .read ∧
      (t.ranks rank).updates = update + 1 := by
  obtain ⟨t, ht, houtside, hupdates⟩ :=
    @exists_updates worldSize reaches rank s hrank (by rw [hfresh]; rfl) update
  have hbegun : (t.ranks rank).updates = update := by
    rw [hupdates, hfresh]
    exact Nat.zero_add update
  obtain ⟨u, hu, harrive, hnext⟩ := exists_enter hrank houtside (hbegun.symm ▸ hreaches)
  obtain ⟨v, hv, hserver⟩ := @exists_arrive worldSize reaches rank u hrank harrive
  refine ⟨v, (ht.trans hu).trans hv, congrArg Server.pc hserver, ?_⟩
  rw [hserver, hnext, hbegun]

/-- A rank that has arrived as all others have can return. -/
theorem exists_return {s : State} (hrank : rank < worldSize) (hpc : (s.ranks rank).pc = .read)
    (hstore : s.store (.arrived (s.ranks rank).storeBarrierCounter) = some worldSize) :
    ∃ t, Alone worldSize reaches rank s t ∧
      (s.ranks rank).updates - 1 ∈ (t.ranks rank).returned := by
  obtain ⟨t, pc, hread, ht, hpcs⟩ := @exists_read worldSize reaches rank s hrank hpc
  obtain rfl : pc = .announce := hpcs.resolve_right fun hwait => hwait.2 hstore
  obtain ⟨u, hu, hserver, hreleased⟩ :=
    @exists_announce worldSize reaches rank t hrank (congrArg Server.pc ht)
  rw [ht] at hserver hreleased
  obtain ⟨v, hv, hfinish⟩ := @exists_finish worldSize reaches rank u hrank
    (congrArg Server.pc hserver) (by rw [hserver]; exact hreleased)
  refine ⟨v, (hread.trans hu).trans hv, ?_⟩
  rw [hfinish, (finish_keeps _ _).2.2.2.1, hserver]
  exact List.mem_append_right _ (List.mem_singleton_self _)

end Alone

/-! ## Calls that are not aligned -/

/-- All ranks can arrive in one generation, each from the update in which it makes that
call. -/
theorem exists_all_arrived {worldSize : Nat} {reaches : Nat → Rank → Bool} {updateOf : Rank → Nat}
    (hreaches : ∀ rank < worldSize, reaches (updateOf rank) rank = true) :
    ∃ s, (barriers worldSize reaches).Reachable s ∧ ∀ rank < worldSize,
      (s.ranks rank).pc = .read ∧ (s.ranks rank).updates = updateOf rank + 1 := by
  have hfirst : ∀ m ≤ worldSize, ∃ s, (barriers worldSize reaches).Reachable s ∧
      (∀ rank < m, (s.ranks rank).pc = .read ∧ (s.ranks rank).updates = updateOf rank + 1) ∧
        ∀ rank, m ≤ rank → s.ranks rank = .fresh := by
    intro m hm
    induction m with
    | zero => exact ⟨_, .init, fun _ h => absurd h (Nat.not_lt_zero _), fun _ _ => rfl⟩
    | succ m ih =>
        obtain ⟨s, hs, hdone, hfresh⟩ := ih (Nat.le_of_succ_le hm)
        obtain ⟨t, ⟨hst, hothers⟩, hread, hupdates⟩ :=
          exists_arrival hm (hfresh m (Nat.le_refl m)) (hreaches m hm)
        refine ⟨t, hs.steps hst, fun rank hrank => ?_, fun rank hrank => ?_⟩
        · rcases Nat.lt_succ_iff_lt_or_eq.mp hrank with hlt | rfl
          · rw [hothers rank (Nat.ne_of_lt hlt)]
            exact hdone rank hlt
          · exact ⟨hread, hupdates⟩
        · rw [hothers rank (Nat.ne_of_gt hrank)]
          exact hfresh rank (Nat.le_of_succ_le hrank)
  obtain ⟨s, hs, hdone, -⟩ := hfirst worldSize (Nat.le_refl _)
  exact ⟨s, hs, hdone⟩

/-- Where the ranks call it in different updates, the one with the later update returns
before the other has begun that update. -/
theorem Separates.aligned {worldSize : Nat} {reaches : Nat → Rank → Bool}
    (h : Separates worldSize reaches) : Aligned worldSize reaches := by
  intro n updateOf hcalls
  have hnot : ∀ rank < worldSize, ∀ other < worldSize, ¬ updateOf rank < updateOf other := by
    intro early hearly late hlate hlt
    obtain ⟨s, hs, hdone⟩ := exists_all_arrived fun rank hrank => (hcalls rank hrank).1
    have hcounter : ∀ rank < worldSize, (s.ranks rank).storeBarrierCounter = n + 1 := by
      intro rank hrank
      obtain ⟨hreaches, hcount⟩ := hcalls rank hrank
      rw [(history hs rank).counter, (hdone rank hrank).2, Nat.count_succ, if_pos hreaches, hcount]
    have hworld : s.arrivedCount worldSize (s.ranks late).storeBarrierCounter = worldSize := by
      have hall : (List.range worldSize).countP (fun rank =>
          (s.ranks late).storeBarrierCounter ≤ (s.ranks rank).arrivals) =
            (List.range worldSize).length := by
        refine List.countP_eq_length.mpr fun rank hrank => ?_
        have hrank := List.mem_range.mp hrank
        simp [Server.arrivals, (hdone rank hrank).1, hcounter rank hrank, hcounter late hlate]
      rw [List.length_range] at hall
      exact hall
    have hstore := (barrierInv hs).read_count hlate (hdone late hlate).1
    rw [hworld] at hstore
    obtain ⟨t, ⟨hst, hothers⟩, hreturned⟩ :=
      @exists_return worldSize reaches late s hlate (hdone late hlate).1 hstore
    rw [(hdone late hlate).2, Nat.add_sub_cancel] at hreturned
    have hne : early ≠ late := by
      rintro rfl
      exact Nat.lt_irrefl _ hlt
    have hentered := h t (hs.steps hst) late hlate _ hreturned early hearly
    have hbegun := (((history (hs.steps hst) early).entered _).mp hentered).1
    rw [hothers early hne, (hdone early hearly).2] at hbegun
    omega
  intro rank hrank other hother
  have := hnot rank hrank other hother
  have := hnot other hother rank hrank
  omega

/-- The barrier keeps the updates of all ranks apart, in every interleaving and with
whatever timeouts, exactly when the calls that have the same number on all ranks are
made in the same update. -/
theorem separates_iff_aligned {worldSize : Nat} {reaches : Nat → Rank → Bool} :
    Separates worldSize reaches ↔ Aligned worldSize reaches :=
  ⟨Separates.aligned, Aligned.separates⟩

/-- Rank 1 raises in the first update before its barrier, and rank 0 times out in it.  In
the second update rank 1 finds what rank 0 has counted in the first, and returns before
rank 0 has entered. -/
theorem not_separates_afterFailure :
    ¬ Separates 2 fun update rank => (update, rank) ≠ (0, 1) := by
  intro h
  obtain ⟨s, hs, hreturned, hentered⟩ := @Machine.Reachable.of_run _ _
    (barriers 2 fun update rank => (update, rank) ≠ (0, 1))
    (fun s => (s.ranks 1).returned = [1] ∧ (s.ranks 0).entered = [0]) inferInstance
    [.next 0, .next 0, .next 0, .timeout 0, .next 1, .next 1, .next 1, .next 1, .next 1, .next 1]
    (by decide +kernel)
  have := h s hs 1 (by omega) 1 (by simp [hreturned]) 0 (by omega)
  simp [hentered] at this

end CheckpointEngine.Barrier
