/-
  `Update.DataFlow`: which bytes the shared buffers hold.

  A bucket's bytes go from the copy of its receiver, through the receiver's h2d
  buffer when it is in use, into the receiver's shared buffer, and by the broadcast
  into all others.  A worker reads them before the half is filled again.
-/
import CheckpointEngine.Update.DoubleBuffer
import CheckpointEngine.Update.Quiescence

set_option autoImplicit false

namespace CheckpointEngine.Update

open CheckpointEngine.Foundation

variable {u : Update} {rank : Rank}

/-- What the receiver of bucket `g` copies out of the registered memory. -/
def content (u : Update) (g : Nat) : Bytes :=
  (u.env.copyToBuffer (u.turn g).receiver (u.turn g).row).getD fun _ => 0

/-- The shared buffer holds bucket `g`. -/
def Holds (u : Update) (g : Nat) (buffer : Bytes) : Prop :=
  ∀ j < (u.turn g).bucket.size, buffer ((u.view g).start + j) = u.content g j

/-! ## The h2d buffer -/

/-- The h2d buffer holds the rank's own bucket in the row of turn `g`, if it has one. -/
def Staged (u : Update) (rank : Rank) (g : Nat) (h2dBuffer : Bytes) : Prop :=
  u.disableH2dBuffer = false → ∀ b bytes,
    (receiverRankBuckets rank u.buckets)[(u.turn g).row]? = some b →
    u.env.copyToBuffer rank (u.turn g).row = some bytes → ∀ j < b.2.size, h2dBuffer j = bytes j

/-- What the h2d buffer holds at a control point. -/
def StagedAt (u : Update) (rank : Rank) (h2dBuffer : Bytes) : Pc → Prop
  | .stage g => (u.turn g).opensRow = true ∨ Staged u rank g h2dBuffer
  | .fill g | .broadcast g | .recvReply g | .allReduce g | .synchronize g =>
      Staged u rank g h2dBuffer
  | _ => True

/-- A row stays staged until the next one is opened. -/
theorem Staged.next {g : Nat} {h2dBuffer : Bytes} (h : Staged u rank g h2dBuffer) :
    StagedAt u rank h2dBuffer (u.enter (g + 1)) := by
  simp only [enter]
  split
  · rename_i hnext
    cases hopens : (u.turn (g + 1)).opensRow with
    | true => exact .inl hopens
    | false =>
        right
        have hrow := turn_sameRow u hnext hopens
        unfold Staged
        rw [hrow]
        exact h
  · trivial

/-- The h2d buffer of every rank holds what its control point says. -/
theorem stagedAt {s : State} (h : u.Reachable s) :
    ∀ q ∈ u.ranks, StagedAt u q (s q).device.h2dBuffer (s q).server.pc := by
  refine rank_invariant (P := fun q x => StagedAt u q x.device.h2dBuffer x.server.pc) ?_ ?_ h
  · exact fun _ _ => trivial
  · intro s rank x _ hrank hall hmove
    have hx := hall rank hrank
    cases hmove with
    | server hmove =>
        cases hmove with
        | sendHandle _ _ =>
            simp only [enter, rounds_pos u, if_true]
            exact .inl (turn_first u)
        | @stage g bytes _ _ hcopy =>
            intro _ b bytes' hb hbytes j hj
            obtain rfl := Option.some.inj (hcopy.symm.trans hbytes)
            have hsize : (u.stagedRegion rank (u.turn g).row).size = b.2.size := by
              simp [stagedRegion, hb]
            have hinside : (s rank).device.h2dBuffer.copy
                (u.stagedRegion rank (u.turn g).row) bytes 0
                ((u.stagedRegion rank (u.turn g).row).start + j) = bytes (0 + j) :=
              Memory.copy_inside (hj.trans_eq hsize.symm)
            simpa [stagedRegion] using hinside
        | @skipStage g hpc hstages =>
            rw [hpc] at hx
            intro hdisable b bytes hb
            rcases hx with hopens | hstaged
            · have hlt := (List.getElem?_eq_some_iff.mp hb).1
              simp [stages, hopens, hdisable, hlt] at hstages
            · exact hstaged hdisable b bytes hb
        | @fill g device hpc hfill =>
            rw [hpc] at hx
            rcases fillBuffer_cases hfill with ⟨_, _, rfl, _⟩ | ⟨_, rfl⟩
            · exact hx
            · exact hx
        | @metadata g hpc _ _ =>
            rw [hpc] at hx
            exact Staged.next hx
        | broadcast hpc | recvReply hpc _ | allReduce hpc =>
            rw [hpc] at hx
            exact hx
        | _ => trivial
    | stream hmove =>
        cases hmove <;> exact hx
    | request _ | worker _ => exact hx

/-! ## The shared buffers -/

/-- The server is in turn `g`, behind its own copy. -/
def Pc.Filled (g : Nat) : Pc → Prop
  | .broadcast g' | .recvReply g' | .allReduce g' | .synchronize g' => g' = g
  | _ => False

/-- A shared buffer holds bucket `g` once the rank has executed the bucket's broadcast,
and at the broadcast's source once the copy is made, up to the turn after `g`. -/
def BufferInv (u : Update) (rank : Rank) (x : RankState) : Prop :=
  ∀ g < u.rounds,
    (2 * g < x.server.pc.issues u ∧ 2 * g < x.device.executed ∨
      (u.turn g).receiver = rank ∧ x.server.pc.Filled g) →
    x.server.pc.sends u ≤ g + 2 → Holds u g x.device.buffer

/-- Filling bucket `g'` leaves the bucket before it alone. -/
theorem Holds.copy_next {g : Nat} {buffer bytes : Bytes} {start : Nat} (h : Holds u g buffer) :
    Holds u g (buffer.copy (u.view (g + 1)) bytes start) := by
  intro j hj
  rw [Memory.copy_outside]
  · exact h j hj
  · exact view_disjoint ⟨Nat.le_add_right _ _, by simp only [view]; omega⟩

theorem Holds.copy_own {g : Nat} {buffer bytes : Bytes} {start : Nat}
    (h : ∀ j < (u.turn g).bucket.size, bytes (start + j) = u.content g j) :
    Holds u g (buffer.copy (u.view g) bytes start) := by
  intro j hj
  rw [Memory.copy_inside (show j < (u.view g).size from hj)]
  exact h j hj

/-- The copy before a broadcast puts the bucket into its receiver's shared buffer. -/
theorem fill_holds (hcopies : u.CopiesSucceed) {g : Nat} {d d' : Device} (hg : g < u.rounds)
    (hrank : rank ∈ u.ranks) (hstaged : Staged u rank g d.h2dBuffer)
    (hreceiver : (u.turn g).receiver = rank) (hfill : u.fillBuffer rank g d = some d') :
    Holds u g d'.buffer := by
  rcases fillBuffer_cases hfill with ⟨_, bytes, rfl, hsource⟩ | ⟨hne, _⟩
  · refine Holds.copy_own fun j hj => ?_
    rw [Nat.zero_add]
    rcases hsource with ⟨_, hcopy⟩ | ⟨hdisable, rfl⟩
    · simp [content, hreceiver, hcopy]
    · obtain ⟨bytes, hbytes⟩ := Option.ne_none_iff_exists'.mp (hcopies rank hrank (u.turn g).row)
      obtain ⟨b, hb, hbucket⟩ := Option.map_eq_some_iff.mp (turnsOf_own (turn_mem u hg))
      rw [hreceiver] at hb
      have := hstaged hdisable b bytes hb hbytes j (by rw [hbucket]; exact hj)
      simp [content, hreceiver, hbytes, this]
  · exact absurd hreceiver hne

/-- A rank whose peer executes the broadcast of turn `g` as another one's receiver is in
that turn itself. -/
theorem source_in_turn {s : State} (hs : u.Reachable s) {r : Rank} (hr : r ∈ u.ranks) {g : Nat}
    (hg : g < u.rounds) (hexecuted : (s r).device.executed = 2 * g) {q : Rank} (hq : q ∈ u.ranks)
    {source : Rank} {size : Nat} (hstarted : Started s q (2 * g) (.broadcast source size)) :
    (s q).server.pc.Filled g ∧ (s q).server.pc.sends u = g + 1 ∧
      (s q).server.issued[2 * g]? = some (.broadcast (u.turn g).receiver (u.view g)) := by
  have hinv := (rankInv hs q hq).server
  obtain ⟨hle, hkind⟩ := hstarted
  -- nobody is two collectives ahead
  have hbehind : (s q).device.executed < 2 * g + 2 := by
    by_contra hge
    have := synced hs q hq r hr g (by omega)
    omega
  have hissues := hinv.lt_issues hkind (by simp)
  have hget := hinv.issued_get hissues
  rw [collective_even] at hget
  have hsettled := hinv.settled
  have hvalid := hinv.valid
  refine ⟨?_, ?_, hget⟩
  all_goals
    revert hissues hsettled hvalid
    cases (s q).server.pc with
    | recvReply g' | allReduce g' | synchronize g' =>
        intro hissues hsettled _
        simp only [Pc.issues, Pc.settled] at hissues hsettled
        simp only [Pc.Filled, Pc.sends]
        omega
    | join exit | barrier exit | awaitBarrier exit | left exit =>
        intro hissues hsettled hvalid
        exfalso
        cases exit with
        | returned | remoteError _ | localError _ =>
            simp only [Pc.issues, Pc.settled, Exit.issues] at hissues hsettled
            omega
    | _ =>
        intro hissues hsettled _
        simp only [Pc.issues, Pc.settled] at hissues hsettled
        omega

/-- A step that does not write the buffer keeps the invariant if no bucket is due that
was not due before. -/
theorem BufferInv.keep {x : RankState} {server : Server} {device : Device}
    (hx : BufferInv u rank x) (hbuffer : device.buffer = x.device.buffer)
    (hadvance : x.server.pc.sends u ≤ server.pc.sends u)
    (hexecuted : ∀ g, 2 * g < server.pc.issues u → 2 * g < device.executed →
      2 * g < x.server.pc.issues u ∧ 2 * g < x.device.executed ∨
        (u.turn g).receiver = rank ∧ x.server.pc.Filled g)
    (hfilled : ∀ g, server.pc.Filled g → x.server.pc.Filled g) :
    BufferInv u rank { x with server, device } := by
  intro g hg hwhen hsends
  change Holds u g device.buffer
  rw [hbuffer]
  refine hx g hg ?_ (hadvance.trans hsends)
  rcases hwhen with ⟨hissued, hdone⟩ | ⟨hreceiver, hpc⟩
  · exact hexecuted g hissued hdone
  · exact .inr ⟨hreceiver, hfilled g hpc⟩

/-- The copy of a turn: the bucket of the turn before stays, the turn's own comes. -/
theorem BufferInv.fill {x : RankState} {g' : Nat} {device : Device} (hcopies : u.CopiesSucceed)
    (hrank : rank ∈ u.ranks) (hinv : ServerInv u rank x.server x.device)
    (hstaged : Staged u rank g' x.device.h2dBuffer) (hx : BufferInv u rank x)
    (hpc : x.server.pc = .fill g') (hfill : u.fillBuffer rank g' x.device = some device) :
    BufferInv u rank { x with server := { x.server with pc := .broadcast g' }, device } := by
  have hexecuted := hinv.executed
  rw [hpc] at hexecuted
  have hbound : x.device.executed ≤ 2 * g' := hexecuted
  have hsame : device.executed = x.device.executed := by
    rcases fillBuffer_cases hfill with ⟨_, _, rfl, _⟩ | ⟨_, rfl⟩ <;> rfl
  intro g hg hwhen hsends
  simp only [Pc.sends] at hwhen hsends ⊢
  rcases hwhen with ⟨hissued, hdone⟩ | ⟨hreceiver, hpc'⟩
  · -- the bucket is the one of the turn before
    obtain rfl : g' = g + 1 := by omega
    have hold := hx g hg (.inl ⟨by rw [hpc]; exact hissued, hsame ▸ hdone⟩)
      (by rw [hpc]; exact Nat.le_refl _)
    rcases fillBuffer_cases hfill with ⟨_, bytes, rfl, _⟩ | ⟨_, rfl⟩
    · exact hold.copy_next
    · exact hold
  · obtain rfl : g' = g := hpc'
    exact fill_holds hcopies hg hrank hstaged hreceiver hfill

/-- A step of the server keeps the invariant of its buffer. -/
theorem ServerMove.bufferInv {s : State} {server : Server} {device : Device}
    (hcopies : u.CopiesSucceed) (hs : u.Reachable s) (hrank : rank ∈ u.ranks)
    (hmove : ServerMove u rank (s rank) server device) (hx : BufferInv u rank (s rank)) :
    BufferInv u rank { s rank with server, device } := by
  have hinv := (rankInv hs rank hrank).server
  have hadvance := (hmove.advance hinv).1
  -- before the barrier nothing is executed that the loop has not issued
  have hissued : (s rank).server.pc.barriers = [] → ∀ {n : Nat} (g : Nat), 2 * g < n →
      2 * g < (s rank).device.executed →
      2 * g < (s rank).server.pc.issues u ∧ 2 * g < (s rank).device.executed ∨
        (u.turn g).receiver = rank ∧ (s rank).server.pc.Filled g := by
    intro hnone n g _ hdone
    have hexecuted := hinv.executed
    rw [hnone, List.length_nil] at hexecuted
    exact .inl ⟨by omega, hdone⟩
  cases hmove with
  | fill hpc hfill =>
      have hstaged := stagedAt hs rank hrank
      rw [hpc] at hstaged
      exact hx.fill hcopies hrank hinv hstaged hpc hfill
  | sendHandle hpc _ | metadata hpc _ _ =>
      refine hx.keep rfl hadvance (hissued (by rw [hpc]; rfl)) fun g hg => ?_
      simp only [enter] at hg
      split at hg <;> cases hg
  | broadcast hpc | recvReply hpc _ | allReduce hpc =>
      refine hx.keep rfl hadvance (hissued (by rw [hpc]; rfl)) fun g hg => ?_
      rw [hpc]
      exact hg
  | leave hpc _ =>
      refine hx.keep rfl hadvance (fun g hissue hdone => ?_) fun g hg => ?_
      · rw [hpc]
        exact .inl ⟨hissue, hdone⟩
      · cases hg
  | stage hpc _ _ | skipStage hpc _ | stageError hpc _ _ | fillError hpc _ | exception hpc _ _
  | recvLast hpc _ | sendRelease hpc | recvRelease hpc _ | sendFinish hpc | recvFinish hpc _
  | join hpc _ | barrier hpc =>
      refine hx.keep rfl hadvance (hissued (by rw [hpc]; rfl)) fun g hg => ?_
      cases hg

/-- The broadcast of a turn is received: the bucket comes from the receiver's buffer, and the
one of the turn before stays. -/
theorem BufferInv.received {s : State} {source : Rank} {view : Region} (hs : u.Reachable s)
    (hrank : rank ∈ u.ranks)
    (hissued : (s rank).server.issued[(s rank).device.executed]? = some (.broadcast source view))
    (hstarted : Started s source (s rank).device.executed (.broadcast source view.size))
    (hall : ∀ q ∈ u.ranks, BufferInv u q (s q)) :
    BufferInv u rank
      { s rank with
        device := { (s rank).device with
          executed := (s rank).device.executed + 1
          buffer := (s rank).device.buffer.copy view (s source).device.buffer
            (viewOf s source (s rank).device.executed).start } } := by
  have hinv := (rankInv hs rank hrank).server
  cases hinv.pending hissued with
  | @broadcast g' hk hg' hpc hcollective =>
      obtain ⟨rfl, rfl⟩ := Collective.broadcast.inj hcollective
      have hmem := turn_receiver_mem u hg'
      rw [hk] at hstarted ⊢
      obtain ⟨hfilled, hsent, hget⟩ := source_in_turn hs hrank hg' hk hmem hstarted
      have hview : viewOf s (u.turn g').receiver (2 * g') = u.view g' := by
        simp only [viewOf, hget]
      rw [hview]
      intro g hg hwhen hsends
      have hturn : (s rank).server.pc.sends u = g' + 1 := by
        rcases hpc with hpc | hpc | hpc <;> rw [hpc] <;> rfl
      simp only at hwhen hsends ⊢
      have hcase : g = g' ∨ g' = g + 1 := by
        rcases hwhen with hdone | ⟨hreceiver, hpc'⟩
        · omega
        · left
          rcases hpc with hpc | hpc | hpc <;> rw [hpc] at hpc' <;> exact hpc'.symm
      rcases hcase with rfl | rfl
      · -- the source's own copy of the bucket
        apply Holds.copy_own
        exact hall _ hmem g hg (.inr ⟨rfl, hfilled⟩) (by omega)
      · apply Holds.copy_next
        refine hall rank hrank g hg ?_ hsends
        rcases hwhen with hdone | hfilled'
        · exact .inl ⟨hdone.1, by omega⟩
        · exact .inr hfilled'
  | allReduce _ _ _ hcollective => cases hcollective
  | barrier _ _ hcollective => cases hcollective

/-- A step of the stream keeps the invariant of the rank's buffer. -/
theorem StreamMove.bufferInv {s : State} {device : Device} (hs : u.Reachable s)
    (hrank : rank ∈ u.ranks) (hmove : StreamMove u s rank device)
    (hall : ∀ q ∈ u.ranks, BufferInv u q (s q)) :
    BufferInv u rank { s rank with device } := by
  have hinv := (rankInv hs rank hrank).server
  have hx := hall rank hrank
  cases hmove with
  | source hissued =>
      cases hinv.pending hissued with
      | @broadcast g' hk _ hpc hcollective =>
          obtain ⟨hreceiver, _⟩ := Collective.broadcast.inj hcollective
          refine hx.keep rfl (Nat.le_refl _) (fun g hissue hdone => ?_) fun g hfilled => hfilled
          rcases Nat.lt_or_ge (2 * g) (s rank).device.executed with hlt | hge
          · exact .inl ⟨hissue, hlt⟩
          · obtain rfl : g' = g := by
              simp only at hdone
              omega
            refine .inr ⟨hreceiver.symm, ?_⟩
            rcases hpc with hpc | hpc | hpc <;> rw [hpc] <;> rfl
      | allReduce _ _ _ hcollective => cases hcollective
      | barrier _ _ hcollective => cases hcollective
  | broadcast hsource hissued hstarted => exact .received hs hrank hissued hstarted hall
  | allReduce hissued _ =>
      cases hinv.pending hissued with
      | @allReduce g' hk _ _ _ =>
          refine hx.keep rfl (Nat.le_refl _) (fun g hissue hdone => ?_) fun g hfilled => hfilled
          simp only at hdone
          exact .inl ⟨hissue, by omega⟩
      | broadcast _ _ _ hcollective => cases hcollective
      | barrier _ _ hcollective => cases hcollective
  | barrier hissued _ =>
      cases hinv.pending hissued with
      | @barrier exit hk hpc _ =>
          refine hx.keep rfl (Nat.le_refl _) (fun g hissue hdone => ?_) fun g hfilled => hfilled
          rw [hpc] at hissue ⊢
          simp only [Pc.issues] at hissue
          exact .inl ⟨hissue, by omega⟩
      | broadcast _ _ _ hcollective => cases hcollective
      | allReduce _ _ _ hcollective => cases hcollective

/-- The shared buffers hold the buckets they should in every reachable state. -/
theorem bufferInv (hcopies : u.CopiesSucceed) {s : State} (h : u.Reachable s) :
    ∀ q ∈ u.ranks, BufferInv u q (s q) := by
  refine rank_invariant (P := BufferInv u) ?_ ?_ h
  · intro q _ g _ hwhen
    rcases hwhen with ⟨_, hdone⟩ | ⟨_, hpc⟩
    · exact absurd hdone (Nat.not_lt_zero _)
    · cases hpc
  · intro s rank x hs hrank hall hmove
    cases hmove with
    | server hmove => exact hmove.bufferInv hcopies hs hrank (hall rank hrank)
    | stream hmove => exact hmove.bufferInv hs hrank hall
    | request _ | worker _ => exact hall rank hrank

/-! ## What `run` is handed -/

/-- A server has sent at most one message more than it has read replies. -/
theorem Pc.sends_le_receives (pc : Pc) : pc.sends u ≤ pc.receives u + 1 := by
  cases pc with
  | sendHandle => exact Nat.zero_le _
  | allReduce _ | synchronize _ | sendRelease | sendFinish => exact Nat.le_succ _
  | join exit | barrier exit | awaitBarrier exit | left exit =>
      cases exit with
      | returned | remoteError _ => exact Nat.le_succ _
      | localError _ => exact Nat.le_refl _
  | _ => exact Nat.le_refl _

/-- The collectives of a bucket are executed before its metadata is sent. -/
theorem Pc.settled_of_sends {pc : Pc} {g : Nat} (hg : g < u.rounds)
    (hsent : g + 1 < pc.sends u) : 2 * g + 2 ≤ pc.issues u ∧ 2 * g + 2 ≤ pc.settled u := by
  cases pc with
  | sendHandle => simp [Pc.sends] at hsent
  | join exit | barrier exit | awaitBarrier exit | left exit =>
      cases exit with
      | returned | remoteError _ | localError _ =>
          simp only [Pc.sends, Exit.sends, Pc.issues, Pc.settled, Exit.issues] at hsent ⊢
          omega
  | _ =>
      simp only [Pc.sends, Pc.issues, Pc.settled] at hsent ⊢
      omega

/-- While a worker runs on bucket `g`, the shared buffer holds it. -/
theorem holds_while_run (hcopies : u.CopiesSucceed) {s : State} (h : u.Reachable s)
    (hrank : rank ∈ u.ranks) {payload : List NamedTensor}
    (hpc : (s rank).worker.pc = .run payload) :
    (s rank).worker.handed.length < u.rounds ∧
      payload = u.metadata (s rank).worker.handed.length ∧
      Holds u (s rank).worker.handed.length (s rank).device.buffer := by
  have hinv := rankInv h rank hrank
  have hposition := hinv.worker.position
  have htold := hinv.worker.told
  rw [hpc] at hposition htold
  obtain ⟨htaken, hone, hle, hpayload, _⟩ := hposition
  have htaken' : (s rank).worker.taken ≤ (s rank).server.pc.sends u := htold
  have hlength : (s rank).worker.handed.length = (s rank).worker.replied.length - 1 := by
    have := hinv.worker.handed
    omega
  have hlt : (s rank).worker.handed.length < u.rounds := by omega
  refine ⟨hlt, hlength ▸ hpayload, ?_⟩
  -- the server is between the metadata of this bucket and that of the next one
  have hreceived : (s rank).server.pc.receives u ≤ (s rank).worker.replied.length := by
    rw [← hinv.server.received_eq]
    exact hinv.worker.received
  have hsends := Pc.sends_le_receives (u := u) (s rank).server.pc
  have hmore : (s rank).worker.handed.length + 1 < (s rank).server.pc.sends u := by omega
  obtain ⟨hissues, hsettled⟩ := Pc.settled_of_sends hlt hmore
  have hexecuted := hinv.server.settled
  exact bufferInv hcopies h rank hrank _ hlt (.inl ⟨by omega, by omega⟩) (by omega)

/-- Every call of `run` gets the slices of a buffer that holds the call's bucket. -/
def HandedInv (u : Update) (x : RankState) : Prop :=
  ∀ g weights, x.worker.handed[g]? = some weights →
    g < u.rounds ∧ ∃ buffer, Holds u g buffer ∧ weights = extractWeights buffer (u.metadata g)

theorem handedInv (hcopies : u.CopiesSucceed) {s : State} (h : u.Reachable s) :
    ∀ q ∈ u.ranks, HandedInv u (s q) := by
  refine rank_invariant (P := fun _ => HandedInv u) ?_ ?_ h
  · intro q _ g weights hget
    simp [initial] at hget
  · intro s rank x hs hrank hall hmove
    have hx := hall rank hrank
    cases hmove with
    | worker hmove =>
        cases hmove with
        | @run payload hpc =>
            obtain ⟨hlt, hpayload, hholds⟩ := holds_while_run hcopies hs hrank hpc
            intro g weights hget
            simp only at hget
            rcases Nat.lt_or_ge g (s rank).worker.handed.length with hold | hge
            · rw [List.getElem?_append_left hold] at hget
              exact hx g weights hget
            · rw [List.getElem?_append_right hge, List.getElem?_singleton] at hget
              split at hget
              · obtain rfl : g = (s rank).worker.handed.length := by omega
                obtain rfl := Option.some.inj hget
                exact ⟨hlt, _, hholds, by rw [hpayload]⟩
              · cases hget
        | _ => exact hx
    | request hmove =>
        cases hmove <;> exact hx
    | server _ | stream _ => exact hx

end CheckpointEngine.Update
