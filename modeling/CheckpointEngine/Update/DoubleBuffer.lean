/-
  `Update.DoubleBuffer`: nobody writes what a worker may still read.

  The server fills one half of the shared buffer while the worker reads the other.
  The next bucket of the same half is only touched after the reply of the turn in
  between has been read, so the counts of `Update.Invariant` are all that is needed:
  a rank whose stream or host writes the view of bucket `g'` has read `g'` replies.
-/
import CheckpointEngine.Update.Invariant

set_option autoImplicit false

namespace CheckpointEngine.Update

open CheckpointEngine.Foundation

variable {u : Update} {rank : Rank}

/-! ## Who writes where -/

/-- The region of its rank's shared buffer that an agent's next step writes: the
host in the copy before a broadcast of its own, the stream in a broadcast of another
rank. -/
def writeRegion (u : Update) (s : State) : Agent → Option Region
  | .server rank =>
      match (s rank).server.pc with
      | .fill g => if (u.turn g).receiver = rank then some (u.view g) else none
      | _ => none
  | .stream rank =>
      match (s rank).server.issued[(s rank).device.executed]? with
      | some (.broadcast source view) => if source = rank then none else some view
      | _ => none
  | .request _ | .worker _ => none

/-- A step changes nothing of a shared buffer outside the agent's write region. -/
theorem buffer_frame {s t : State} {agent : Agent} {q : Rank} {a : Nat}
    (hstep : u.machine.step s agent = some t)
    (hout : ∀ region ∈ u.writeRegion s agent, agent.rank = q → ¬ region.Contains a) :
    (t q).device.buffer a = (s q).device.buffer a := by
  obtain ⟨_, x, hx, rfl⟩ := step_cases hstep
  by_cases hown : q = agent.rank
  · subst hown
    rw [setRank_self]
    cases agent with
    | server rank =>
        obtain ⟨⟨server, device⟩, hserver, rfl⟩ := Option.map_eq_some_iff.mp hx
        cases serverStep_move hserver with
        | fill hpc hfill =>
            rcases fillBuffer_cases hfill with ⟨hreceiver, bytes, rfl, _⟩ | ⟨_, rfl⟩
            · exact Memory.copy_outside
                (hout _ (by simp [writeRegion, hpc, hreceiver]) rfl)
            · rfl
        | _ => rfl
    | stream rank =>
        obtain ⟨device, hstream, rfl⟩ := Option.map_eq_some_iff.mp hx
        cases streamStep_move hstream with
        | broadcast hsource hissued _ =>
            exact Memory.copy_outside
              (hout _ (by simp [writeRegion, hissued, hsource]) rfl)
        | _ => rfl
    | request rank =>
        obtain ⟨⟨request, worker⟩, _, rfl⟩ := Option.map_eq_some_iff.mp hx
        rfl
    | worker rank =>
        obtain ⟨worker, _, rfl⟩ := Option.map_eq_some_iff.mp hx
        rfl
  · rw [setRank_other hown]

/-- What is written is the view of one bucket, and its rank has read the replies of
all turns before and not sent the bucket's metadata. -/
theorem writeRegion_view {s : State} {agent : Agent} {region : Region}
    (hinv : RankInv u agent.rank (s agent.rank)) (hregion : region ∈ u.writeRegion s agent) :
    ∃ g, region = u.view g ∧ g < u.rounds ∧
      (s agent.rank).server.pc.sends u = g + 1 ∧ g ≤ (s agent.rank).server.pc.receives u := by
  have hvalid := hinv.server.valid
  cases agent with
  | server rank =>
      simp only [writeRegion] at hregion
      split at hregion
      · rename_i g hpc
        split at hregion
        · obtain rfl := Option.some.inj hregion
          rw [show (Agent.server rank).rank = rank from rfl, hpc] at hvalid ⊢
          exact ⟨g, rfl, hvalid, rfl, Nat.le_refl _⟩
        · contradiction
      · contradiction
  | stream rank =>
      simp only [writeRegion] at hregion
      split at hregion
      · rename_i source view hissued
        split at hregion
        · contradiction
        · obtain rfl := Option.some.inj hregion
          simp only [Agent.rank] at hinv hissued ⊢
          cases hinv.server.pending hissued with
          | @broadcast g hk hg hpc hcollective =>
              cases hcollective
              rcases hpc with hpc | hpc | hpc
              · rw [hpc]
                exact ⟨g, rfl, hg, rfl, Nat.le_refl _⟩
              · rw [hpc]
                exact ⟨g, rfl, hg, rfl, Nat.le_succ _⟩
              · rw [hpc]
                exact ⟨g, rfl, hg, rfl, Nat.le_succ _⟩
          | allReduce _ _ _ hcollective => cases hcollective
          | barrier _ _ hcollective => cases hcollective
      · contradiction
  | request rank => contradiction
  | worker rank => contradiction

/-! ## The window -/

/-- From the moment the server has sent the metadata of bucket `g` until the worker
has sent its reply to it. -/
def InUse (u : Update) (g : Nat) (x : RankState) : Prop :=
  x.server.sent[g + 1]? = some (.metadata (u.metadata g)) ∧ x.worker.replied.length ≤ g + 1

instance (u : Update) (g : Nat) (x : RankState) : Decidable (u.InUse g x) :=
  inferInstanceAs (Decidable (_ ∧ _))

/-- Consecutive buckets lie in different halves. -/
theorem view_disjoint {u : Update} {g a : Nat} (h : (u.view g).Contains a) :
    ¬ (u.view (g + 1)).Contains a := by
  intro h'
  have hsize := turn_size_le u g
  have hsize' := turn_size_le u (g + 1)
  simp only [Region.Contains, view, start] at h h'
  rcases Nat.mod_two_eq_zero_or_one g with heven | hodd
  · have hodd' : (g + 1) % 2 = 1 := by omega
    rw [heven] at h
    rw [hodd'] at h'
    omega
  · have heven' : (g + 1) % 2 = 0 := by omega
    rw [hodd] at h
    rw [heven'] at h'
    omega

/-- A region that is written while bucket `g` is in use has no byte of bucket `g`. -/
theorem InUse.writeRegion_disjoint {s : State} {agent : Agent} {g a : Nat} {region : Region}
    (hinv : RankInv u agent.rank (s agent.rank)) (huse : u.InUse g (s agent.rank))
    (hregion : region ∈ u.writeRegion s agent) (ha : (u.view g).Contains a) :
    ¬ region.Contains a := by
  obtain ⟨g', rfl, hg', hsends, hreceives⟩ := writeRegion_view hinv hregion
  obtain ⟨hsent, hreplied⟩ := huse
  have hmetadata : g + 1 < (s agent.rank).server.pc.sends u := by
    rw [hinv.server.history] at hsent
    by_contra hge
    simp only [serverAt, sentAt] at hsent
    rw [List.getElem?_append_right (by simpa using hge)] at hsent
    have hmem := List.mem_of_getElem? hsent
    revert hmem
    simp only [Pc.farewell]
    cases (s agent.rank).server.pc.exit? with
    | none => simp
    | some exit => cases exit <;> simp [Exit.farewell]
  have hreceived := hinv.server.received_eq
  have hworker := hinv.worker.received
  -- the bucket being written comes after `g`, and at most one turn after it
  obtain rfl : g' = g + 1 := by omega
  exact view_disjoint ha

/-- Double-buffer safety: while bucket `g` of rank `q` is in use, no step of any agent
of any rank writes a byte of `q`'s shared buffer in the view of `g`, and no such byte
changes. -/
theorem inUse_not_written {u : Update} {s t : State} {agent : Agent} {q : Rank} {g : Nat}
    (hs : u.Reachable s) (hstep : u.machine.step s agent = some t)
    (huse : u.InUse g (s q)) :
    ∀ a, (u.view g).Contains a →
      (∀ region ∈ u.writeRegion s agent, agent.rank = q → ¬ region.Contains a) ∧
        (t q).device.buffer a = (s q).device.buffer a := by
  intro a ha
  have hdisjoint : ∀ region ∈ u.writeRegion s agent, agent.rank = q → ¬ region.Contains a := by
    rintro region hregion rfl
    have hmem := (step_cases hstep).1
    exact InUse.writeRegion_disjoint (rankInv hs _ hmem) huse hregion ha
  exact ⟨hdisjoint, buffer_frame hstep hdisjoint⟩

/-- A run of a single rank up to the point where it has sent its only metadata. -/
def untilMetadata : List Agent :=
  [.request 0, .server 0, .worker 0, .worker 0, .server 0, .server 0, .server 0, .stream 0,
    .server 0, .server 0, .stream 0, .server 0]

theorem inUse_not_written_singleBucket :
    ∃ s t, Reachable (singleBucket [] .faultless) s ∧
      (singleBucket [] .faultless).machine.step s (.worker 0) = some t ∧
      InUse (singleBucket [] .faultless) 0 (s 0) ∧
      ∀ a, (view (singleBucket [] .faultless) 0).Contains a →
        (∀ region ∈ writeRegion (singleBucket [] .faultless) s (.worker 0),
          (Agent.worker 0).rank = 0 → ¬ region.Contains a) ∧
        (t 0).device.buffer a = (s 0).device.buffer a := by
  obtain ⟨s, hreach, huse, hstep⟩ := Machine.Reachable.of_run
    (M := (singleBucket [] .faultless).machine)
    (P := fun s => InUse (singleBucket [] .faultless) 0 (s 0) ∧
      ((singleBucket [] .faultless).machine.step s (.worker 0)).isSome) untilMetadata (by decide)
  obtain ⟨t, ht⟩ := Option.isSome_iff_exists.mp hstep
  exact ⟨s, t, hreach, ht, huse, inUse_not_written hreach ht huse⟩

end CheckpointEngine.Update
