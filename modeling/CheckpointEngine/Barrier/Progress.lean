/-
  `Barrier.Progress`: ranks that all call the barrier all get through it.

  Where no wait times out, nobody waits for ever, since the last rank to arrive reads the
  full count and announces it; nobody gets away from the others, so long runs bring every
  rank forward; and what is in the store is a few keys, for any number of ranks and of
  generations.
-/
import CheckpointEngine.Barrier.Separation
import Mathlib.Algebra.Order.BigOperators.Group.Finset
import Mathlib.Data.Finset.Max

set_option autoImplicit false

namespace CheckpointEngine.Barrier

open CheckpointEngine.Foundation

/-- The ranks call the barrier in every update. -/
def allReach : Nat → Rank → Bool := fun _ _ => true

variable {worldSize : Nat} {s t : State} {rank : Rank}

/-! ## The invariant -/

/-- The rank has seen or will see that its generation is complete. -/
def Server.Announces (server : Server) (generation : Nat) : Prop :=
  server.storeBarrierCounter = generation ∧ (server.pc = .read ∨ server.pc = .announce)

structure Prompt (worldSize : Nat) (s : State) : Prop where
  /-- a complete generation is announced, or will be -/
  announced : ∀ generation, 1 ≤ generation → s.AllArrived worldSize generation →
    .lastWorker generation ∈ s.deleted ∨ (s.store (.lastWorker generation)).isSome ∨
      ∃ rank < worldSize, (s.ranks rank).Announces generation
  completed : ∀ rank < worldSize, s.AllArrived worldSize (s.ranks rank).completed
  returned : ∀ rank < worldSize, (s.ranks rank).returned.length = (s.ranks rank).completed
  positive : ∀ key, (s.store key).isSome → 1 ≤ key.generation

theorem count_of_allArrived {generation : Nat} (h : s.AllArrived worldSize generation) :
    s.arrivedCount worldSize generation = worldSize := by
  have hall := List.countP_eq_length.mpr fun rank hrank =>
    decide_eq_true (h rank (List.mem_range.mp hrank))
  rwa [List.length_range] at hall

theorem counter_le_completed (server : Server) :
    server.storeBarrierCounter ≤ server.completed + 1 := by
  unfold Server.completed
  split <;> omega

/-- No rank is two generations ahead of another. -/
theorem Prompt.counter_le (h : Prompt worldSize s) {other : Rank} (hrank : rank < worldSize)
    (hother : other < worldSize) :
    (s.ranks rank).storeBarrierCounter ≤ (s.ranks other).storeBarrierCounter + 1 := by
  have hcounter := counter_le_completed (s.ranks rank)
  have harrived := h.completed rank hrank other hother
  have hle := arrivals_le (s.ranks other)
  omega

theorem prompt_init (hworld : 0 < worldSize) :
    Prompt worldSize (barriers worldSize allReach).init where
  announced := fun generation hpos hall => absurd (hall 0 hworld) (by
    have hnone : (Server.fresh).arrivals = 0 := rfl
    exact Nat.not_le_of_lt (hnone.symm ▸ hpos))
  completed := fun _ _ _ _ => Nat.le_refl _
  returned := fun _ _ => rfl
  positive := fun _ h => by cases h

/-- A rank moves on, in a way that keeps to what has been announced. -/
theorem Prompt.move (h : Prompt worldSize s) (hrank : rank < worldSize)
    (hchange : Change worldSize allReach s rank t)
    (hcompleted : (t.ranks rank).completed = (s.ranks rank).completed ∨
      s.AllArrived worldSize (t.ranks rank).completed)
    (hreturned : (t.ranks rank).returned.length = (t.ranks rank).completed)
    (hpositive : ∀ key, (t.store key).isSome → 1 ≤ key.generation)
    (hsame : ∀ generation, t.AllArrived worldSize generation →
      s.AllArrived worldSize generation ∨ (t.ranks rank).Announces generation)
    (hdeleted : ∀ key ∈ s.deleted, key ∈ t.deleted)
    (hlast : ∀ generation, (s.store (.lastWorker generation)).isSome →
      .lastWorker generation ∈ t.deleted ∨ (t.store (.lastWorker generation)).isSome)
    (hpending : ∀ generation, s.AllArrived worldSize generation →
      (s.ranks rank).Announces generation →
        (t.store (.lastWorker generation)).isSome ∨ (t.ranks rank).Announces generation) :
    Prompt worldSize t where
  announced := by
    intro generation hpos harrived
    cases hsame generation harrived with
    | inr hannounces => exact .inr (.inr ⟨rank, hrank, hannounces⟩)
    | inl hbefore =>
        rcases h.announced generation hpos hbefore with hgone | hsome | hwill
        · exact .inl (hdeleted _ hgone)
        · exact (hlast generation hsome).imp_right .inl
        · obtain ⟨other, hlt, hannounces⟩ := hwill
          rcases eq_or_ne other rank with rfl | hne
          · exact (hpending generation hbefore hannounces).elim (fun hsome => .inr (.inl hsome))
              fun hannounces => .inr (.inr ⟨other, hlt, hannounces⟩)
          · exact .inr (.inr ⟨other, hlt, hchange.other hne ▸ hannounces⟩)
  completed := by
    intro other hlt
    rcases eq_or_ne other rank with rfl | hne
    · cases hcompleted with
      | inl heq => exact hchange.allArrived (heq ▸ h.completed other hlt)
      | inr harrived => exact hchange.allArrived harrived
    · exact hchange.allArrived (hchange.other hne ▸ h.completed other hlt)
  returned := by
    intro other hlt
    rcases eq_or_ne other rank with rfl | hne
    · exact hreturned
    · rw [hchange.other hne]
      exact h.returned other hlt
  positive := hpositive

/-- Where nobody arrives, no generation becomes complete. -/
theorem allArrived_of_same (hchange : Change worldSize allReach s rank t)
    (harrivals : (t.ranks rank).arrivals = (s.ranks rank).arrivals) {generation : Nat}
    (h : t.AllArrived worldSize generation) : s.AllArrived worldSize generation := by
  intro other hlt
  rcases eq_or_ne other rank with rfl | hne
  · exact harrivals ▸ h other hlt
  · exact hchange.other hne ▸ h other hlt

theorem not_announces {server : Server} (hread : server.pc ≠ .read)
    (hannounce : server.pc ≠ .announce) (generation : Nat) : ¬ server.Announces generation :=
  fun h => h.2.elim hread hannounce

/-- The rank calls the barrier. -/
theorem Prompt.enter (h : Prompt worldSize s) (hrank : rank < worldSize)
    (hpc : (s.ranks rank).pc = .outside)
    (hchange : Change worldSize allReach s rank (s.setRank rank { s.ranks rank with
      updates := (s.ranks rank).updates + 1
      storeBarrierCounter := (s.ranks rank).storeBarrierCounter + 1
      pc := .arrive
      entered := (s.ranks rank).entered ++ [(s.ranks rank).updates] })) :
    Prompt worldSize (s.setRank rank { s.ranks rank with
      updates := (s.ranks rank).updates + 1
      storeBarrierCounter := (s.ranks rank).storeBarrierCounter + 1
      pc := .arrive
      entered := (s.ranks rank).entered ++ [(s.ranks rank).updates] }) := by
  have hreturned := h.returned rank hrank
  have hself := State.setRank_self s rank { s.ranks rank with
    updates := (s.ranks rank).updates + 1
    storeBarrierCounter := (s.ranks rank).storeBarrierCounter + 1
    pc := .arrive
    entered := (s.ranks rank).entered ++ [(s.ranks rank).updates] }
  refine h.move hrank hchange ?_ ?_ h.positive ?_ (fun _ => id) (fun _ => .inr) ?_
  · rw [hself]
    exact .inl (by simp [Server.completed, hpc])
  · rw [hself]
    simp only [Server.completed, hpc] at hreturned ⊢
    exact hreturned
  · refine fun generation harrived => .inl (allArrived_of_same hchange ?_ harrived)
    rw [hself]
    simp [Server.arrivals, hpc]
  · exact fun generation _ hannounces =>
      absurd hannounces (not_announces (by simp [hpc]) (by simp [hpc]) _)

/-- It counts itself in. -/
theorem Prompt.arrive (h : Prompt worldSize s) (hinv : BarrierInv worldSize s)
    (hrank : rank < worldSize) (hpc : (s.ranks rank).pc = .arrive)
    (hchange : Change worldSize allReach s rank
      { s.setRank rank { s.ranks rank with pc := .read } with
        store := s.store.add (.arrived (s.ranks rank).storeBarrierCounter) 1 }) :
    Prompt worldSize { s.setRank rank { s.ranks rank with pc := .read } with
      store := s.store.add (.arrived (s.ranks rank).storeBarrierCounter) 1 } := by
  have hreturned := h.returned rank hrank
  have hself := State.setRank_self s rank { s.ranks rank with pc := .read }
  have hpos := (hinv.server rank).positive (.inl hpc)
  refine h.move hrank hchange ?_ ?_ ?_ ?_ (fun _ => id) ?_ ?_
  · rw [show State.ranks _ rank = _ from hself]
    exact .inl (by simp [Server.completed, hpc])
  · rw [show State.ranks _ rank = _ from hself]
    simp only [Server.completed, hpc] at hreturned ⊢
    exact hreturned
  · intro key hsome
    rcases eq_or_ne key (.arrived (s.ranks rank).storeBarrierCounter) with rfl | hne
    · exact hpos
    · refine h.positive key ?_
      rwa [show State.store _ key = s.store key from Function.update_of_ne hne _ _] at hsome
  · intro generation harrived
    rw [show State.ranks _ rank = _ from hself]
    rcases eq_or_ne (s.ranks rank).storeBarrierCounter generation with heq | hne
    · exact .inr ⟨heq, .inl rfl⟩
    · refine .inl fun other hlt => ?_
      have hthere := harrived other hlt
      rcases eq_or_ne other rank with rfl | hdiff
      · rw [show State.ranks _ other = _ from hself] at hthere
        simp only [Server.arrivals, hpc, reduceCtorEq, if_true, if_false] at hthere ⊢
        omega
      · rwa [hchange.other hdiff] at hthere
  · intro generation hsome
    have hstore : s.store.add (.arrived (s.ranks rank).storeBarrierCounter) 1
        (.lastWorker generation) = s.store (.lastWorker generation) :=
      Function.update_of_ne (fun heq => by cases heq) _ _
    exact .inr ((congrArg Option.isSome hstore).trans hsome)
  · exact fun generation _ hannounces =>
      absurd hannounces (not_announces (by simp [hpc]) (by simp [hpc]) _)

/-- It reads the count, and the full one sends it to the announcement. -/
theorem Prompt.read {pc : Pc} (h : Prompt worldSize s) (hinv : BarrierInv worldSize s)
    (hrank : rank < worldSize) (hpc : (s.ranks rank).pc = .read)
    (hpc' : pc = .wait ∨ pc = .announce)
    (hread : s.store (.arrived (s.ranks rank).storeBarrierCounter) = some worldSize →
      pc = .announce)
    (hchange : Change worldSize allReach s rank { s.setRank rank { s.ranks rank with pc } with
      store := s.store.add (.arrived (s.ranks rank).storeBarrierCounter) 0 }) :
    Prompt worldSize { s.setRank rank { s.ranks rank with pc } with
      store := s.store.add (.arrived (s.ranks rank).storeBarrierCounter) 0 } := by
  have hreturned := h.returned rank hrank
  have hself := State.setRank_self s rank { s.ranks rank with pc }
  have hcount := hinv.read_count hrank hpc
  have hstore := Store.add_zero hcount
  refine h.move hrank hchange ?_ ?_ ?_ ?_ (fun _ => id) ?_ ?_
  · rw [show State.ranks _ rank = _ from hself]
    refine .inl ?_
    rcases hpc' with rfl | rfl <;> simp [Server.completed, hpc]
  · rw [show State.ranks _ rank = _ from hself]
    simp only [Server.completed, hpc] at hreturned ⊢
    rcases hpc' with rfl | rfl <;> exact hreturned
  · exact fun key hsome => h.positive key (hstore ▸ hsome)
  · refine fun generation harrived => .inl (allArrived_of_same hchange ?_ harrived)
    rw [show State.ranks _ rank = _ from hself]
    rcases hpc' with rfl | rfl <;> simp [Server.arrivals, hpc]
  · exact fun generation hsome => .inr (hstore.symm ▸ hsome)
  · intro generation harrived hannounces
    obtain rfl := hannounces.1
    rw [count_of_allArrived harrived] at hcount
    rw [show State.ranks _ rank = _ from hself]
    exact .inr ⟨rfl, .inr (hread hcount)⟩

/-- The last one to arrive announces it. -/
theorem Prompt.announce (h : Prompt worldSize s) (hinv : BarrierInv worldSize s)
    (hrank : rank < worldSize) (hpc : (s.ranks rank).pc = .announce)
    (hchange : Change worldSize allReach s rank
      { s.setRank rank { s.ranks rank with pc := .wait } with
        store := s.store.set (.lastWorker (s.ranks rank).storeBarrierCounter) }) :
    Prompt worldSize { s.setRank rank { s.ranks rank with pc := .wait } with
      store := s.store.set (.lastWorker (s.ranks rank).storeBarrierCounter) } := by
  have hreturned := h.returned rank hrank
  have hself := State.setRank_self s rank { s.ranks rank with pc := .wait }
  have hpos := (hinv.server rank).positive (.inr (.inr (.inl hpc)))
  have hset : ∀ key, (s.store key).isSome →
      (s.store.set (.lastWorker (s.ranks rank).storeBarrierCounter) key).isSome := by
    intro key hsome
    rw [Store.set, Function.update_apply]
    split
    · rfl
    · exact hsome
  refine h.move hrank hchange ?_ ?_ ?_ ?_ (fun _ => id)
    (fun _ hsome => .inr (hset _ hsome)) ?_
  · rw [show State.ranks _ rank = _ from hself]
    exact .inl (by simp [Server.completed, hpc])
  · rw [show State.ranks _ rank = _ from hself]
    simp only [Server.completed, hpc] at hreturned ⊢
    exact hreturned
  · intro key hsome
    rcases eq_or_ne key (.lastWorker (s.ranks rank).storeBarrierCounter) with rfl | hne
    · exact hpos
    · refine h.positive key ?_
      rwa [show State.store _ key = s.store key from Function.update_of_ne hne _ _] at hsome
  · refine fun generation harrived => .inl (allArrived_of_same hchange ?_ harrived)
    rw [show State.ranks _ rank = _ from hself]
    simp [Server.arrivals, hpc]
  · intro generation _ hannounces
    obtain rfl := hannounces.1
    exact .inl (by simp [Store.set])

/-- What is announced lets it go. -/
theorem Prompt.finish (h : Prompt worldSize s) (hinv : BarrierInv worldSize s)
    (hrank : rank < worldSize) (hpc : (s.ranks rank).pc = .wait)
    (hreleased : (s.store (.lastWorker (s.ranks rank).storeBarrierCounter)).isSome)
    (hchange : Change worldSize allReach s rank
      (s.setRank rank ((s.ranks rank).finish rank))) :
    Prompt worldSize (s.setRank rank ((s.ranks rank).finish rank)) := by
  have hreturned := h.returned rank hrank
  have hself := State.setRank_self s rank ((s.ranks rank).finish rank)
  obtain ⟨-, hcounter, -, hlist, hout⟩ := finish_keeps (s.ranks rank) rank
  have hpos := (hinv.server rank).positive (.inr (.inr (.inr hpc)))
  have hcompleted : ((s.ranks rank).finish rank).completed =
      (s.ranks rank).storeBarrierCounter := by
    rw [← hcounter, Server.completed]
    rcases hout with hpc' | ⟨key, hpc'⟩ <;> rw [hpc']
  refine h.move hrank hchange ?_ ?_ h.positive ?_ (fun _ => id) (fun _ => .inr) ?_
  · rw [hself, hcompleted]
    exact .inr (hinv.released _ hreleased)
  · rw [hself, hcompleted, hlist, List.length_append, List.length_singleton, hreturned]
    simp only [Server.completed, hpc]
    omega
  · refine fun generation harrived => .inl (allArrived_of_same hchange ?_ harrived)
    rw [hself, Server.arrivals, Server.arrivals, hcounter]
    rcases hout with hpc' | ⟨key, hpc'⟩ <;> simp [hpc, hpc']
  · exact fun generation _ hannounces =>
      absurd hannounces (not_announces (by simp [hpc]) (by simp [hpc]) _)

/-- It deletes a key of a generation that is over. -/
theorem Prompt.delete {key : Key} (h : Prompt worldSize s) (hrank : rank < worldSize)
    (hpc : (s.ranks rank).pc = .delete key)
    (hchange : Change worldSize allReach s rank
      { s.setRank rank { s.ranks rank with pc := .afterDelete key } with
        store := s.store.deleteKey key
        deleted := s.deleted ++ [key] }) :
    Prompt worldSize { s.setRank rank { s.ranks rank with pc := .afterDelete key } with
      store := s.store.deleteKey key
      deleted := s.deleted ++ [key] } := by
  have hreturned := h.returned rank hrank
  have hself := State.setRank_self s rank { s.ranks rank with pc := .afterDelete key }
  have hstore : ∀ other, other ≠ key → s.store.deleteKey key other = s.store other :=
    fun other hne => Function.update_of_ne hne _ _
  refine h.move hrank hchange ?_ ?_ ?_ ?_ (fun _ => List.mem_append_left _) ?_ ?_
  · rw [show State.ranks _ rank = _ from hself]
    refine .inl ?_
    cases key <;> simp [Server.completed, hpc, Pc.afterDelete]
  · rw [show State.ranks _ rank = _ from hself]
    simp only [Server.completed, hpc] at hreturned ⊢
    cases key <;> exact hreturned
  · intro other hsome
    rcases eq_or_ne other key with rfl | hne
    · simp [Store.deleteKey] at hsome
    · exact h.positive other (hstore other hne ▸ hsome)
  · refine fun generation harrived => .inl (allArrived_of_same hchange ?_ harrived)
    rw [show State.ranks _ rank = _ from hself]
    exact arrivals_afterDelete hpc
  · intro generation hsome
    rcases eq_or_ne (.lastWorker generation) key with rfl | hne
    · exact .inl (List.mem_append_right _ (List.mem_singleton_self _))
    · exact .inr ((congrArg Option.isSome (hstore _ hne)).trans hsome)
  · exact fun generation _ hannounces =>
      absurd hannounces (not_announces (by simp [hpc]) (by simp [hpc]) _)

theorem Prompt.change (h : Prompt worldSize s) (hinv : BarrierInv worldSize s)
    (hrank : rank < worldSize) (hchange : Change worldSize allReach s rank t)
    (hread : (s.ranks rank).pc = .read →
      s.store (.arrived (s.ranks rank).storeBarrierCounter) = some worldSize →
        (t.ranks rank).pc = .announce) : Prompt worldSize t := by
  cases hchange with
  | skip hpc hreaches => cases hreaches
  | enter hpc hreaches => exact h.enter hrank hpc (.enter hpc hreaches)
  | arrive hpc => exact h.arrive hinv hrank hpc (.arrive hpc)
  | read pc hpc hnext =>
      refine h.read hinv hrank hpc (hnext.imp_right And.left) (fun hcount => ?_)
        (.read pc hpc hnext)
      have hannounce := hread hpc hcount
      rwa [show State.ranks _ rank = _ from State.setRank_self s rank _] at hannounce
  | announce hpc => exact h.announce hinv hrank hpc (.announce hpc)
  | finish hpc hreleased => exact h.finish hinv hrank hpc hreleased (.finish hpc hreleased)
  | delete key hpc => exact h.delete hrank hpc (.delete key hpc)

theorem next_announce {reaches : Nat → Rank → Bool} (hpc : (s.ranks rank).pc = .read)
    (hcount : s.store (.arrived (s.ranks rank).storeBarrierCounter) = some worldSize)
    (h : s.next worldSize reaches rank = some t) : (t.ranks rank).pc = .announce := by
  simp only [State.next, hpc, Store.add_zero hcount, hcount, if_true] at h
  obtain rfl := Option.some.inj h
  exact congrArg Server.pc (State.setRank_self s rank _)

theorem prompt (hworld : 0 < worldSize)
    (h : (barriers worldSize allReach).ReachableBy NoTimeout s) :
    BarrierInv worldSize s ∧ Prompt worldSize s := by
  refine @Machine.ReachableBy.invariant _ _ _ _
    (fun s => BarrierInv worldSize s ∧ Prompt worldSize s) ⟨barrierInv_init, prompt_init hworld⟩
    ?_ s h
  intro s move t hboth hmove hstep
  obtain ⟨hinv, hprompt⟩ := hboth
  refine ⟨hinv.step hstep, ?_⟩
  obtain ⟨rank, hrank, hcase⟩ := State.step_cases hstep
  cases hcase with
  | inr htimeout => exact absurd htimeout.1 (hmove rank)
  | inl hnext =>
      obtain ⟨rfl, hchange⟩ := hnext
      refine hprompt.change hinv hrank hchange fun hpc hcount => ?_
      have hnext : s.next worldSize allReach rank = some t :=
        (Option.ite_none_right_eq_some.mp hstep).2
      exact next_announce hpc hcount hnext

/-! ## Nobody waits for ever -/

theorem waits_of_stuck (hrank : rank < worldSize)
    (h : (barriers worldSize allReach).step s (.next rank) = none) :
    (s.ranks rank).pc = .wait ∧
      s.store (.lastWorker (s.ranks rank).storeBarrierCounter) = none := by
  have hnext : s.next worldSize allReach rank = none := by
    change (if rank < worldSize then s.next worldSize allReach rank else none) = none at h
    rwa [if_pos hrank] at h
  unfold State.next at hnext
  simp only at hnext
  split at hnext
  case h_5 hpc =>
    split at hnext
    · cases hnext
    · exact ⟨hpc, Option.not_isSome_iff_eq_none.mp ‹_›⟩
  all_goals cases hnext

/-- Some rank can always go on. -/
theorem Prompt.exists_next (h : Prompt worldSize s) (hinv : BarrierInv worldSize s)
    (hworld : 0 < worldSize) :
    ∃ rank < worldSize, ∃ t, (barriers worldSize allReach).step s (.next rank) = some t := by
  by_contra hstuck
  have hwaits : ∀ rank < worldSize, (s.ranks rank).pc = .wait ∧
      s.store (.lastWorker (s.ranks rank).storeBarrierCounter) = none := by
    intro rank hrank
    refine waits_of_stuck hrank ?_
    by_contra hsome
    obtain ⟨t, ht⟩ := Option.ne_none_iff_exists'.mp hsome
    exact hstuck ⟨rank, hrank, t, ht⟩
  -- the generation of the ranks that are furthest behind
  obtain ⟨rank, hmem, hleast⟩ := Finset.exists_min_image (Finset.range worldSize)
    (fun rank => (s.ranks rank).storeBarrierCounter) ⟨0, Finset.mem_range.mpr hworld⟩
  have hrank := Finset.mem_range.mp hmem
  obtain ⟨hpc, hnone⟩ := hwaits rank hrank
  have hall : s.AllArrived worldSize (s.ranks rank).storeBarrierCounter := by
    intro other hother
    have hle := hleast other (Finset.mem_range.mpr hother)
    simpa [Server.arrivals, (hwaits other hother).1] using hle
  have hpos := (hinv.server rank).positive (.inr (.inr (.inr hpc)))
  rcases h.announced _ hpos hall with hgone | hsome | hwill
  · exact hinv.not_gone hrank rfl hgone
  · rw [hnone] at hsome
    cases hsome
  · obtain ⟨other, hother, -, hpc'⟩ := hwill
    rw [(hwaits other hother).1] at hpc'
    exact hpc'.elim (fun h => by cases h) fun h => by cases h

/-! ## Nobody stays behind -/

def Pc.offset : Pc → Nat
  | .arrive => 0
  | .read => 1
  | .announce => 2
  | .wait => 3
  | .delete (.arrived _) => 4
  | .delete (.lastWorker _) => 5
  | .outside => 6

/-- How far the rank has got, at least one for each operation. -/
def Server.position (server : Server) : Nat := 7 * server.storeBarrierCounter + server.pc.offset

theorem offset_le (pc : Pc) : pc.offset ≤ 6 := by
  cases pc with
  | delete key => cases key <;> simp [Pc.offset]
  | _ => simp [Pc.offset]

theorem Change.position (h : Change worldSize allReach s rank t) :
    (s.ranks rank).position < (t.ranks rank).position := by
  cases h with
  | skip hpc hreaches => cases hreaches
  | enter hpc hreaches =>
      rw [State.setRank_self]
      simp only [Server.position, hpc, Pc.offset]
      omega
  | arrive hpc | announce hpc =>
      rw [show State.ranks _ rank = _ from State.setRank_self s rank _]
      simp [Server.position, hpc, Pc.offset]
  | read pc hpc hnext =>
      rw [show State.ranks _ rank = _ from State.setRank_self s rank _]
      rcases hnext with rfl | ⟨rfl, -⟩ <;> simp [Server.position, hpc, Pc.offset]
  | finish hpc hreleased =>
      rw [State.setRank_self]
      obtain ⟨-, hcounter, -, -, hout⟩ := finish_keeps (s.ranks rank) rank
      rw [Server.position, Server.position, hcounter, hpc]
      rcases hout with hpc' | ⟨key, hpc'⟩
      · simp [hpc', Pc.offset]
      · cases key <;> simp [hpc', Pc.offset]
  | delete key hpc =>
      rw [show State.ranks _ rank = _ from State.setRank_self s rank _]
      cases key <;> simp [Server.position, hpc, Pc.offset, Pc.afterDelete]

/-- All ranks together have got as far as they have taken steps. -/
theorem length_le_positions {moves : List Move}
    (h : (barriers worldSize allReach).Trace NoTimeout moves s) :
    6 * worldSize + moves.length ≤ ∑ rank ∈ Finset.range worldSize, (s.ranks rank).position := by
  induction h with
  | nil => simp [barriers, Server.fresh, Server.position, Pc.offset, Nat.mul_comm]
  | @snoc moves s t move htrace hmove hstep ih =>
      obtain ⟨rank, hrank, hcase⟩ := State.step_cases hstep
      cases hcase with
      | inr htimeout => exact absurd htimeout.1 (hmove rank)
      | inl hnext =>
          have hlt : ∑ other ∈ Finset.range worldSize, (s.ranks other).position <
              ∑ other ∈ Finset.range worldSize, (t.ranks other).position := by
            refine Finset.sum_lt_sum (fun other _ => ?_)
              ⟨rank, Finset.mem_range.mpr hrank, hnext.2.position⟩
            rcases eq_or_ne other rank with rfl | hne
            · exact Nat.le_of_lt hnext.2.position
            · rw [hnext.2.other hne]
          rw [List.length_append, List.length_singleton]
          omega

/-- A long run brings every rank forward. -/
theorem Prompt.length_le (h : Prompt worldSize s) {moves : List Move}
    (htrace : (barriers worldSize allReach).Trace NoTimeout moves s) (hrank : rank < worldSize) :
    moves.length ≤ 7 * worldSize * ((s.ranks rank).returned.length + 2) := by
  have hsteps := length_le_positions htrace
  have hcounter := counter_le_completed (s.ranks rank)
  have hreturned := h.returned rank hrank
  have heach : ∀ other ∈ Finset.range worldSize,
      (s.ranks other).position ≤ 7 * ((s.ranks rank).returned.length + 2) + 6 := by
    intro other hother
    have hahead := h.counter_le (Finset.mem_range.mp hother) hrank
    have hoffset := offset_le (s.ranks other).pc
    rw [Server.position]
    omega
  have hsum := Finset.sum_le_card_nsmul _ _ _ heach
  rw [Finset.card_range, Nat.nsmul_eq_mul, Nat.mul_add] at hsum
  have hassoc : 7 * worldSize * ((s.ranks rank).returned.length + 2) =
      worldSize * (7 * ((s.ranks rank).returned.length + 2)) := by
    rw [Nat.mul_comm 7 worldSize, Nat.mul_assoc]
  omega

/-! ## The store stays small -/

/-- The generation whose keys rank 0 is deleting, or the one it has entered last. -/
def Server.current (server : Server) : Nat :=
  match server.pc with
  | .delete key => key.generation
  | _ => server.storeBarrierCounter

/-- The keys there can be. -/
def State.keys (s : State) : List Key :=
  ((s.ranks 0).storeBarrierTrash.flatMap fun generation =>
      [.arrived generation, .lastWorker generation]) ++
    [.arrived (s.ranks 0).current, .lastWorker (s.ranks 0).current,
      .arrived ((s.ranks 0).storeBarrierCounter + 1)]

theorem Swept.length_keys (h : Swept s) : s.keys.length ≤ 7 := by
  have htrash : (s.ranks 0).storeBarrierTrash.length ≤ 2 := by
    rw [h.trash, length_lastTwo]
    exact Nat.min_le_right _ _
  simp only [State.keys, List.length_append, List.length_flatMap, List.length_cons,
    List.length_nil, List.map_const', List.sum_replicate, Nat.nsmul_eq_mul]
  omega

/-- Of a generation that rank 0 has entered, a key that is in the store is one of these. -/
theorem Swept.mem_keys (h : Swept s) (hinv : BarrierInv worldSize s) {key : Key}
    (hsome : (s.store key).isSome) (hpos : 1 ≤ key.generation)
    (hle : key.generation ≤ (s.ranks 0).storeBarrierCounter) : key ∈ s.keys := by
  have htrash : key.generation ∈ (s.ranks 0).storeBarrierTrash → key ∈ s.keys := by
    intro hmem
    refine List.mem_append_left _ (List.mem_flatMap.mpr ⟨_, hmem, ?_⟩)
    cases key <;> simp [Key.generation]
  have hcurrent : key.generation = (s.ranks 0).current → key ∈ s.keys := by
    intro heq
    refine List.mem_append_right _ ?_
    rw [← heq]
    cases key <;> simp [Key.generation]
  by_cases hold : key.generation + 2 ≤ (s.ranks 0).completed
  · cases h.swept key hpos hold with
    | inl hgone =>
        rw [(hinv.gone key hgone).1] at hsome
        cases hsome
    | inr hpending =>
        refine hcurrent ?_
        rcases hpending with hpc | ⟨-, hpc⟩ <;> rw [Server.current, hpc]
        rfl
  · by_cases hdone : key.generation ≤ (s.ranks 0).completed
    · refine htrash ?_
      rw [h.trash]
      exact mem_lastTwo hpos hdone (by omega)
    · refine hcurrent ?_
      unfold Server.current
      unfold Server.completed at hdone
      split
      · rename_i hpc
        simp only [hpc] at hdone
        omega
      · split at hdone <;> omega

theorem Prompt.mem_keys (h : Prompt worldSize s) (hinv : BarrierInv worldSize s) (hswept : Swept s)
    (hworld : 0 < worldSize) {key : Key} (hsome : (s.store key).isSome) : key ∈ s.keys := by
  have hpos := h.positive key hsome
  cases key with
  | lastWorker generation =>
      refine hswept.mem_keys hinv hsome hpos ?_
      exact Nat.le_trans (hinv.released generation hsome 0 hworld) (arrivals_le _)
  | arrived generation =>
      have hkept : .arrived generation ∉ s.deleted := fun hgone => by
        rw [(hinv.gone _ hgone).1] at hsome
        cases hsome
      have hcount : s.arrivedCount worldSize generation ≠ 0 := fun hzero => by
        rw [hinv.counts generation hpos hkept, if_pos hzero] at hsome
        cases hsome
      obtain ⟨rank, hrank, hthere⟩ := List.countP_pos_iff.mp (Nat.pos_of_ne_zero hcount)
      have hcounter := h.counter_le (List.mem_range.mp hrank) hworld
      have hle := Nat.le_trans (of_decide_eq_true hthere) (arrivals_le _)
      rcases eq_or_ne generation ((s.ranks 0).storeBarrierCounter + 1) with rfl | hne
      · exact List.mem_append_right _ (by simp)
      · exact hswept.mem_keys hinv hsome hpos (show generation ≤ _ by omega)

/-- **The barrier serves every rank.**  Where all ranks call the barrier in every update and
no wait times out, in any interleaving: some rank can always go on; after so many operations
every rank has returned from so many barriers; and the store holds no more than seven keys. -/
theorem barrier_serves_all {worldSize : Nat} (hworld : 0 < worldSize) {moves : List Move}
    {s : State} (h : (barriers worldSize allReach).Trace NoTimeout moves s) :
    (∃ rank < worldSize, ∃ t, (barriers worldSize allReach).step s (.next rank) = some t) ∧
      (∀ rank < worldSize,
        moves.length ≤ 7 * worldSize * ((s.ranks rank).returned.length + 2)) ∧
      ∃ keys : List Key, keys.length ≤ 7 ∧ ∀ key, (s.store key).isSome → key ∈ keys := by
  obtain ⟨hinv, hprompt⟩ := prompt hworld h.reachableBy
  have hswept := swept h.reachableBy
  exact ⟨hprompt.exists_next hinv hworld, fun _ hrank => hprompt.length_le h hrank,
    s.keys, hswept.length_keys, fun _ hsome => hprompt.mem_keys hinv hswept hworld hsome⟩

/-- Two ranks that have been through a barrier; either has more of them before it. -/
theorem barrier_serves_all_oneGeneration :
    ∃ s, (barriers 2 allReach).Trace NoTimeout oneGeneration s ∧
      (∃ rank < 2, ∃ t, (barriers 2 allReach).step s (.next rank) = some t) ∧
      (∀ rank < 2, oneGeneration.length ≤ 7 * 2 * ((s.ranks rank).returned.length + 2)) ∧
      ∃ keys : List Key, keys.length ≤ 7 ∧ ∀ key, (s.store key).isSome → key ∈ keys := by
  obtain ⟨s, hrun, -⟩ := Machine.exists_of_run (M := barriers 2 allReach)
    (P := fun s => (s.ranks 0).returned = [0]) oneGeneration (by decide +kernel)
  have htrace : (barriers 2 allReach).Trace NoTimeout oneGeneration s := by
    refine Machine.Trace.of_run (fun _ move hmove rank heq => ?_) hrun
    subst heq
    simp [oneGeneration] at hmove
  exact ⟨s, htrace, barrier_serves_all (by decide) htrace⟩

end CheckpointEngine.Barrier
