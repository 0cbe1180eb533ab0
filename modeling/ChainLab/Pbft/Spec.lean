import ChainLab.Pbft.State

/-!
# What a successful call does

One statement per method of the replica state: the checks that held and the state it leads to.  All
later proofs about runs start from these and do not unfold the methods again.
-/

namespace ChainLab.Pbft

open List
open Result
open State

variable {hash : BlockCore → String} {s s' : State}

/-! ## Pre-prepare -/

/-- What `validatePrePrepare` checks. -/
structure ValidPrePrepare (hash : BlockCore → String) (s : State) (msg : PrePrepare) : Prop where
  view_eq : msg.view = s.viewID
  leader_eq : msg.leaderID = s.leaderForView msg.view
  height_pos : 0 < msg.height
  sequence_eq : msg.sequence = msg.height
  inWatermarks : s.inWatermarks msg.height = true
  hash_ne : msg.blockHash ≠ ""
  block_hash : msg.block.blockHash = msg.blockHash
  digest : hash msg.block.toBlockCore = msg.blockHash
  block_height : msg.block.height = msg.height
  lock : s.prePrepareBySlot.get (slotKey msg.view msg.sequence) = "" ∨
    s.prePrepareBySlot.get (slotKey msg.view msg.sequence) = msg.blockHash
  prepared : (s.preparedByHeight.get msg.height).blockHash = "" ∨
    (s.preparedByHeight.get msg.height).blockHash = msg.blockHash

lemma validatePrePrepare_eq_ok {msg : PrePrepare} :
    s.validatePrePrepare hash msg = .ok () ↔ ValidPrePrepare hash s msg := by
  unfold validatePrePrepare
  simp only [require_bind_eq_ok, require_eq_ok, not_or, not_and, ne_eq, Decidable.not_not]
  constructor
  · rintro ⟨hview, hlead, ⟨-, hht, hseq⟩, hwater, ⟨hne, hblk, hdig⟩, hh, hlock, hprep⟩
    exact
      { view_eq := hview
        leader_eq := hlead
        height_pos := Nat.pos_of_ne_zero hht
        sequence_eq := hseq
        inWatermarks := hwater
        hash_ne := hne
        block_hash := hblk.symm
        digest := hdig
        block_height := hh.symm
        lock := Decidable.or_iff_not_imp_left.2 hlock
        prepared := Decidable.or_iff_not_imp_left.2 hprep }
  · intro h
    have hht : msg.height ≠ 0 := h.height_pos.ne'
    exact ⟨h.view_eq, h.leader_eq, ⟨by simpa [h.sequence_eq] using hht, hht, h.sequence_eq⟩,
      h.inWatermarks, ⟨h.hash_ne, h.block_hash.symm, h.digest⟩, h.block_height.symm,
      Decidable.or_iff_not_imp_left.1 h.lock, Decidable.or_iff_not_imp_left.1 h.prepared⟩

lemma onPrePrepare_eq_ok {msg : PrePrepare} {p : Prepare} :
    s.onPrePrepare hash msg = .ok (s', p) ↔ ValidPrePrepare hash s msg ∧
      s' = s.lockPrePrepare msg ∧
        p = ⟨msg.view, msg.sequence, msg.height, s.nodeID, msg.blockHash⟩ := by
  unfold onPrePrepare
  simp only [bind_eq_ok]
  constructor
  · rintro ⟨_, hvalid, hout⟩
    cases hout
    exact ⟨validatePrePrepare_eq_ok.1 hvalid, rfl, rfl⟩
  · rintro ⟨hvalid, rfl, rfl⟩
    exact ⟨(), validatePrePrepare_eq_ok.2 hvalid, rfl⟩

/-! ## Votes -/

/-- A vote of a validator for the current view and a slot inside the watermarks. -/
structure AdmitsVote (s : State) (nodeID : String) (view sequence height : Nat) : Prop where
  validator : s.isValidator nodeID = true
  view_eq : view = s.viewID
  height_pos : 0 < height
  sequence_eq : sequence = height
  inWatermarks : s.inWatermarks height = true

variable {count height : Nat} {kind : String} {u : Unit} {reached : Bool} {vc : ViewChange}
  {msg : NewView} {b : Option Block}

lemma checkVote_eq_ok {nodeID : String} {view sequence : Nat} :
    s.checkVote kind nodeID view sequence height = .ok u ↔
      AdmitsVote s nodeID view sequence height := by
  unfold checkVote
  simp only [require_bind_eq_ok, require_eq_ok, not_or, ne_eq, Decidable.not_not]
  constructor
  · rintro ⟨hval, hview, ⟨-, hht, hseq⟩, hwater⟩
    exact ⟨hval, hview, Nat.pos_of_ne_zero hht, hseq, hwater⟩
  · intro h
    have hht : height ≠ 0 := h.height_pos.ne'
    exact ⟨h.validator, h.view_eq, ⟨by simpa [h.sequence_eq] using hht, hht, h.sequence_eq⟩,
      h.inWatermarks⟩

lemma storePrepared_cases (s : State) (cert : PreparedCertificate) :
    (∃ blocks, s.storePrepared cert = { s with
      preparedByHeight := s.preparedByHeight.put cert.height cert
      preparedBlocks := blocks
      stage := .prepared }) ∨
    ∃ existing, s.preparedByHeight.find cert.height = some existing ∧
      cert.view < existing.view ∧ s.storePrepared cert = { s with stage := .prepared } := by
  unfold storePrepared
  split
  · exact .inl ⟨_, rfl⟩
  rename_i hlater
  cases hfind : s.preparedByHeight.find cert.height with
  | none => simp [hfind] at hlater
  | some existing => exact .inr ⟨existing, rfl, by simpa [hfind] using hlater, rfl⟩

/-- The three ways AcceptPrepare succeeds: the slot has no pre-prepare yet and the vote is buffered,
the vote is counted short of a quorum, or it is counted and a prepared certificate exists. -/
inductive PrepareOutcome (s : State) (msg : Prepare) : State → Bool → Nat → Prop
  | buffered (hlock : s.prePrepareBySlot.get (slotKey msg.view msg.sequence) = "")
      (hearly : ∀ existing, (s.earlyPrepareVotes.get (slotKey msg.view msg.sequence)).find
        msg.nodeID = some existing → existing.blockHash = msg.blockHash) :
      PrepareOutcome s msg
        { s with
          earlyPrepareVotes :=
            s.earlyPrepareVotes.putIn (slotKey msg.view msg.sequence) msg.nodeID msg } false 0
  | counted (hlock : s.prePrepareBySlot.get (slotKey msg.view msg.sequence) = msg.blockHash)
      (hne : msg.blockHash ≠ "")
      (hshort : ((s.recordPrepare msg).prepareVotes.get msg.blockHash).len < s.prepareQuorum) :
      PrepareOutcome s msg (s.recordPrepare msg) false
        ((s.recordPrepare msg).prepareVotes.get msg.blockHash).len
  | reached (hlock : s.prePrepareBySlot.get (slotKey msg.view msg.sequence) = msg.blockHash)
      (hne : msg.blockHash ≠ "")
      (hquorum : s.prepareQuorum ≤ ((s.recordPrepare msg).prepareVotes.get msg.blockHash).len) :
      PrepareOutcome s msg ((s.recordPrepare msg).storePrepared
          { view := msg.view, sequence := msg.sequence, height := msg.height,
            blockHash := msg.blockHash,
            prepares :=
              State.sortedPrepares ((s.recordPrepare msg).prepareVotes.get msg.blockHash) })
        true ((s.recordPrepare msg).prepareVotes.get msg.blockHash).len

lemma acceptPrepare_ok {msg : Prepare} (h : s.acceptPrepare msg = .ok (s', reached, count)) :
    AdmitsVote s msg.nodeID msg.view msg.sequence msg.height ∧
      PrepareOutcome s msg s' reached count := by
  obtain ⟨_, hcheck, h⟩ := bind_eq_ok.1 h
  refine ⟨checkVote_eq_ok.1 hcheck, ?_⟩
  by_cases hlock : s.prePrepareBySlot.get (slotKey msg.view msg.sequence) = ""
  · simp only [hlock, if_true] at h
    obtain ⟨s₁, hbuffer, hout⟩ := bind_eq_ok.1 h
    cases hout
    unfold bufferEarlyPrepare at hbuffer
    simp only [require_bind_eq_ok] at hbuffer
    obtain ⟨hearly, hs₁⟩ := hbuffer
    cases hs₁
    refine .buffered hlock ?_
    intro existing hfind
    simpa [hfind] using hearly
  · simp only [hlock, if_false, require_bind_eq_ok] at h
    obtain ⟨hmatch, -, h⟩ := h
    have hne : msg.blockHash ≠ "" := hmatch ▸ hlock
    split at h
    · cases h
      exact .reached hmatch hne ‹_›
    · cases h
      exact .counted hmatch hne (Nat.lt_of_not_le ‹_›)

/-- The four ways AcceptCommit succeeds; only a counted vote that completes a quorum for a prepared
and locked block decides. -/
inductive CommitOutcome (s : State) (msg : Commit) : State → Bool → Nat → Block → Prop
  | buffered (hlock : s.prePrepareBySlot.get (slotKey msg.view msg.sequence) = "")
      (hearly : ∀ existing, (s.earlyCommitVotes.get (slotKey msg.view msg.sequence)).find
        msg.nodeID = some existing → existing.blockHash = msg.blockHash) :
      CommitOutcome s msg
        { s with
          earlyCommitVotes :=
            s.earlyCommitVotes.putIn (slotKey msg.view msg.sequence) msg.nodeID msg } false 0
              default
  | counted (hlock : s.prePrepareBySlot.get (slotKey msg.view msg.sequence) = msg.blockHash)
      (hne : msg.blockHash ≠ "")
      (hopen : ¬ (s.commitQuorum ≤ ((s.recordCommit msg).commitVotes.get msg.blockHash).len ∧
        (∃ cert, s.preparedByHeight.find msg.height = some cert ∧
          cert.blockHash = msg.blockHash) ∧ (s.lockedBlocks.get msg.blockHash).blockHash ≠ "")) :
      CommitOutcome s msg (s.recordCommit msg) false
        ((s.recordCommit msg).commitVotes.get msg.blockHash).len default
  | reached (hlock : s.prePrepareBySlot.get (slotKey msg.view msg.sequence) = msg.blockHash)
      (hne : msg.blockHash ≠ "")
      (hquorum : s.commitQuorum ≤ ((s.recordCommit msg).commitVotes.get msg.blockHash).len)
      (hprepared : ∃ cert, s.preparedByHeight.find msg.height = some cert ∧
        cert.blockHash = msg.blockHash)
      (hblock : (s.lockedBlocks.get msg.blockHash).blockHash ≠ "") :
      CommitOutcome s msg
        { s.recordCommit msg with
          commitCertificates := s.commitCertificates.put msg.height
            { view := msg.view, sequence := msg.sequence, height := msg.height,
              blockHash := msg.blockHash,
              commits := State.sortedCommits ((s.recordCommit msg).commitVotes.get msg.blockHash) }
          stage := .committed
          committedBlocks := s.committedBlocks.put (s.lockedBlocks.get msg.blockHash).height
            (s.lockedBlocks.get msg.blockHash) }
        true ((s.recordCommit msg).commitVotes.get msg.blockHash).len
        (s.lockedBlocks.get msg.blockHash)

lemma acceptCommit_ok {msg : Commit} {b : Block}
    (h : s.acceptCommit msg = .ok (s', reached, count, b)) :
    AdmitsVote s msg.nodeID msg.view msg.sequence msg.height ∧
      CommitOutcome s msg s' reached count b := by
  obtain ⟨_, hcheck, h⟩ := bind_eq_ok.1 h
  refine ⟨checkVote_eq_ok.1 hcheck, ?_⟩
  by_cases hlock : s.prePrepareBySlot.get (slotKey msg.view msg.sequence) = ""
  · simp only [hlock, if_true] at h
    obtain ⟨s₁, hbuffer, hout⟩ := bind_eq_ok.1 h
    cases hout
    unfold bufferEarlyCommit at hbuffer
    simp only [require_bind_eq_ok] at hbuffer
    obtain ⟨hearly, hs₁⟩ := hbuffer
    cases hs₁
    refine .buffered hlock ?_
    intro existing hfind
    simpa [hfind] using hearly
  · simp only [hlock, if_false, require_bind_eq_ok] at h
    obtain ⟨hmatch, -, h⟩ := h
    have hne : msg.blockHash ≠ "" := hmatch ▸ hlock
    split at h
    · rename_i hdecide
      obtain ⟨hquor, hprepared, hblk⟩ := hdecide
      cases h
      refine .reached hmatch hne hquor ?_ hblk
      simpa [recordCommit, Option.any_eq_true] using hprepared
    · rename_i hdecide
      cases h
      refine .counted hmatch hne ?_
      intro hopen
      apply hdecide
      simpa [recordCommit, commitQuorum, Option.any_eq_true] using hopen

/-! ## Votes that are taken -/

lemma all_eq {α : Type} {f : α → String} {hash : String} {vote : Option α}
    (h : ∀ existing, vote = some existing → f existing = hash) :
    (vote.all fun existing => f existing = hash) = true := by
  simpa [Option.all_eq_true] using h

lemma not_other {hash previous : String} (h : previous = "" ∨ previous = hash) :
    ¬ (previous ≠ "" ∧ previous ≠ hash) := by
  rcases h with h | h <;> simp [h]

lemma acceptPrepare_succeeds {msg : Prepare} {slot : Slot}
    (hslot : slotKey msg.view msg.sequence = slot)
    (hadm : AdmitsVote s msg.nodeID msg.view msg.sequence msg.height)
    (hlock : s.prePrepareBySlot.get slot = "" ∨ s.prePrepareBySlot.get slot = msg.blockHash)
    (hearly : ∀ existing, (s.earlyPrepareVotes.get slot).find msg.nodeID = some existing →
      existing.blockHash = msg.blockHash)
    (hprev : (s.prepareBySlotNode.get slot).get msg.nodeID = "" ∨
      (s.prepareBySlotNode.get slot).get msg.nodeID = msg.blockHash) :
    ∃ s' reached count, s.acceptPrepare msg = .ok (s', reached, count) := by
  subst hslot
  have hcheck : s.checkVote "prepare" msg.nodeID msg.view msg.sequence msg.height = .ok () :=
    checkVote_eq_ok.2 hadm
  unfold acceptPrepare
  rw [hcheck]
  by_cases hemp : s.prePrepareBySlot.get (slotKey msg.view msg.sequence) = ""
  · simp only [hemp, if_true, bufferEarlyPrepare, require_bind (all_eq hearly)]
    exact ⟨_, _, _, rfl⟩
  · simp only [hemp, if_false, require_bind (hlock.resolve_left hemp),
      require_bind (not_other hprev)]
    split <;> exact ⟨_, _, _, rfl⟩

lemma acceptCommit_succeeds {msg : Commit} {slot : Slot}
    (hslot : slotKey msg.view msg.sequence = slot)
    (hadm : AdmitsVote s msg.nodeID msg.view msg.sequence msg.height)
    (hlock : s.prePrepareBySlot.get slot = "" ∨ s.prePrepareBySlot.get slot = msg.blockHash)
    (hearly : ∀ existing, (s.earlyCommitVotes.get slot).find msg.nodeID = some existing →
      existing.blockHash = msg.blockHash)
    (hprev : (s.commitBySlotNode.get slot).get msg.nodeID = "" ∨
      (s.commitBySlotNode.get slot).get msg.nodeID = msg.blockHash) :
    ∃ s' reached count b, s.acceptCommit msg = .ok (s', reached, count, b) := by
  subst hslot
  have hcheck : s.checkVote "commit" msg.nodeID msg.view msg.sequence msg.height = .ok () :=
    checkVote_eq_ok.2 hadm
  unfold acceptCommit
  rw [hcheck]
  by_cases hemp : s.prePrepareBySlot.get (slotKey msg.view msg.sequence) = ""
  · simp only [hemp, if_true, bufferEarlyCommit, require_bind (all_eq hearly)]
    exact ⟨_, _, _, _, rfl⟩
  · simp only [hemp, if_false, require_bind (hlock.resolve_left hemp),
      require_bind (not_other hprev)]
    split <;> exact ⟨_, _, _, _, rfl⟩

/-! ## Certificates -/

variable {seen : List String} {cert : PreparedCertificate} {newView : Nat}
  {chosen out : PreparedCertificate × Block} {vcs : List ViewChange}

lemma checkCertificateVotes_eq_ok {α : Type} {nodeID : α → String} {agrees : α → Bool}
    {votes : List α} :
    s.checkCertificateVotes kind nodeID agrees seen votes = .ok u ↔
      (∀ vote ∈ votes, s.isValidator (nodeID vote) = true ∧ nodeID vote ∉ seen ∧
        agrees vote = true) ∧ (votes.map nodeID).Nodup := by
  induction votes generalizing seen with
  | nil => simp [checkCertificateVotes]
  | cons vote votes ih =>
    simp only [checkCertificateVotes, require_bind_eq_ok, ih, map_cons, nodup_cons, mem_cons,
      mem_map]
    constructor
    · rintro ⟨hval, hseen, hagr, hall, hnd⟩
      refine ⟨?_, ?_, hnd⟩
      · rintro v (rfl | hv)
        · exact ⟨hval, hseen, hagr⟩
        · obtain ⟨hv₁, hv₂, hv₃⟩ := hall v hv
          exact ⟨hv₁, fun hmem => hv₂ (.inr hmem), hv₃⟩
      · rintro ⟨v, hv, heq⟩
        exact (hall v hv).2.1 (.inl heq)
    · rintro ⟨hall, hfresh, hnd⟩
      obtain ⟨hval, hseen, hagr⟩ := hall vote (.inl rfl)
      refine ⟨hval, hseen, hagr, ?_, hnd⟩
      intro v hv
      obtain ⟨hv₁, hv₂, hv₃⟩ := hall v (.inr hv)
      refine ⟨hv₁, ?_, hv₃⟩
      rintro (heq | hmem)
      · exact hfresh ⟨v, hv, heq⟩
      · exact hv₂ hmem

/-- A prepared certificate of a quorum of distinct validators. -/
structure ValidPrepared (s : State) (cert : PreparedCertificate) : Prop where
  hash_ne : cert.blockHash ≠ ""
  height_pos : 0 < cert.height
  quorum_le : s.prepareQuorum ≤ cert.prepares.length
  nodup : (cert.prepares.map Prepare.nodeID).Nodup
  validator : ∀ vote ∈ cert.prepares, s.isValidator vote.nodeID = true
  agrees : ∀ vote ∈ cert.prepares, vote.view = cert.view ∧ vote.sequence = cert.sequence ∧
    vote.height = cert.height ∧ vote.blockHash = cert.blockHash

lemma validatePreparedCertificate_ok (h : s.validatePreparedCertificate cert = .ok u) :
    ValidPrepared s cert := by
  unfold validatePreparedCertificate at h
  simp only [require_bind_eq_ok, checkCertificateVotes_eq_ok, not_or] at h
  obtain ⟨⟨hhash, hht, -⟩, hquor, hall, hnd⟩ := h
  exact
    { hash_ne := hhash
      height_pos := Nat.pos_of_ne_zero hht
      quorum_le := hquor
      nodup := hnd
      validator := fun vote hv => (hall vote hv).1
      agrees := fun vote hv => by simpa [and_assoc] using (hall vote hv).2.2 }

/-- A commit certificate of a quorum of distinct validators. -/
structure ValidCommitted (s : State) (cert : CommitCertificate) : Prop where
  hash_ne : cert.blockHash ≠ ""
  height_pos : 0 < cert.height
  sequence_eq : cert.sequence = cert.height
  quorum_le : s.commitQuorum ≤ cert.commits.length
  nodup : (cert.commits.map Commit.nodeID).Nodup
  validator : ∀ vote ∈ cert.commits, s.isValidator vote.nodeID = true
  agrees : ∀ vote ∈ cert.commits, vote.view = cert.view ∧ vote.sequence = cert.sequence ∧
    vote.height = cert.height ∧ vote.blockHash = cert.blockHash

lemma validateCommitCertificate_ok {cert : CommitCertificate}
    (h : s.validateCommitCertificate cert = .ok u) : ValidCommitted s cert := by
  unfold validateCommitCertificate at h
  simp only [require_bind_eq_ok, checkCertificateVotes_eq_ok, not_or, ne_eq, Decidable.not_not] at h
  obtain ⟨⟨hhash, hht, -, hseq⟩, hquor, hall, hnd⟩ := h
  exact
    { hash_ne := hhash
      height_pos := Nat.pos_of_ne_zero hht
      sequence_eq := hseq
      quorum_le := hquor
      nodup := hnd
      validator := fun vote hv => (hall vote hv).1
      agrees := fun vote hv => by simpa [and_assoc] using (hall vote hv).2.2 }

lemma acceptCommitCertificate_ok {cert : CommitCertificate} {b : Block}
    (h : s.acceptCommitCertificate hash cert b = .ok s') :
    ValidCommitted s cert ∧ b.height = cert.height ∧ b.blockHash = cert.blockHash ∧
      hash b.toBlockCore = cert.blockHash ∧
      (∀ existing, s.commitCertificates.find cert.height = some existing →
        existing.blockHash = cert.blockHash) ∧
      s' = { s with
        commitCertificates := s.commitCertificates.put cert.height cert
        committedBlocks := s.committedBlocks.put cert.height b } := by
  obtain ⟨_, hvalid, h⟩ := bind_eq_ok.1 h
  simp only [require_bind_eq_ok, not_or, ne_eq, Decidable.not_not] at h
  obtain ⟨⟨-, hht, hblk, hdig⟩, hconflict, hout⟩ := h
  cases hout
  refine ⟨validateCommitCertificate_ok hvalid, hht, hblk, hdig, ?_, rfl⟩
  intro existing hfind
  simpa [hfind] using hconflict

/-! ## View change -/

/-- The prepared certificate of a view change is valid and comes with its block. -/
structure ValidEvidence (hash : BlockCore → String) (s : State) (vc : ViewChange) : Prop where
  prepared : ∀ cert, vc.prepared = some cert → ValidPrepared s cert
  block : ∀ cert, vc.prepared = some cert → ∃ b, vc.preparedBlock = some b ∧
    b.blockHash = cert.blockHash ∧ b.height = cert.height ∧ hash b.toBlockCore = cert.blockHash

lemma validateEvidence_ok (h : s.validateEvidence hash kind vc = .ok u) :
    ValidEvidence hash s vc := by
  obtain ⟨_, -, h⟩ := bind_eq_ok.1 h
  cases hprep : vc.prepared with
  | none => constructor <;> simp [hprep]
  | some cert =>
    rw [hprep] at h
    obtain ⟨_, hvalid, hblk⟩ := bind_eq_ok.1 h
    constructor
    · rintro c hc
      cases hprep.symm.trans hc
      exact validatePreparedCertificate_ok hvalid
    · rintro c hc
      cases hprep.symm.trans hc
      simpa [Option.any_eq_true, and_assoc] using hblk

lemma buildViewChange_ok (h : s.buildViewChange newView height = .ok (s', vc)) :
    s.viewID < newView ∧ s' = { s with stage := .viewChange } ∧ vc.view = s.viewID ∧
      vc.newView = newView ∧ vc.nodeID = s.nodeID ∧
      vc.prepared = if (s.highestPrepared height).1.blockHash ≠ ""
        then some (s.highestPrepared height).1 else none := by
  unfold buildViewChange at h
  simp only [require_bind_eq_ok] at h
  obtain ⟨hview, hout⟩ := h
  cases hout
  exact ⟨hview, rfl, rfl, rfl, rfl, rfl⟩

lemma acceptViewChange_ok {msg : ViewChange}
    (h : s.acceptViewChange hash msg = .ok (s', reached, count)) :
    s.isValidator msg.nodeID = true ∧ s.viewID < msg.newView ∧ ValidEvidence hash s msg ∧
      (s' = s ∨ (s.viewChangeVotes.get msg.newView).find msg.nodeID = none ∧ s' = { s with
          viewChangeVotes := s.viewChangeVotes.putIn msg.newView msg.nodeID msg
          stage := .viewChange }) := by
  unfold acceptViewChange at h
  simp only [require_bind_eq_ok, not_or, Nat.not_le] at h
  obtain ⟨hval, ⟨-, hview⟩, -, h⟩ := h
  obtain ⟨_, hvalid, h⟩ := bind_eq_ok.1 h
  refine ⟨hval, hview, validateEvidence_ok hvalid, ?_⟩
  split at h
  · simp only [require_bind_eq_ok] at h
    obtain ⟨-, hout⟩ := h
    cases hout
    exact .inl rfl
  · cases h
    exact .inr ⟨‹_›, rfl⟩

/-! ## New view -/

/-- `chosen` is the highest prepared certificate of the view changes: by view, then by height, with
one block for the two together. -/
structure Highest (vcs : List ViewChange) (chosen : PreparedCertificate × Block) : Prop where
  none_of_empty : chosen.1.blockHash = "" → ∀ vc ∈ vcs, vc.prepared = none
  mem : chosen.1.blockHash ≠ "" → ∃ vc ∈ vcs, vc.prepared = some chosen.1 ∧
    vc.preparedBlock = some chosen.2
  le : ∀ vc ∈ vcs, ∀ cert, vc.prepared = some cert → cert.view < chosen.1.view ∨
    cert.view = chosen.1.view ∧ (cert.height < chosen.1.height ∨
      cert.height = chosen.1.height ∧ cert.blockHash = chosen.1.blockHash)

lemma supersedes_iff {chosen : PreparedCertificate} :
    cert.supersedes chosen = true ↔ chosen.blockHash = "" ∨ chosen.view < cert.view ∨
      cert.view = chosen.view ∧ chosen.height < cert.height := by
  simp [PreparedCertificate.supersedes, or_assoc]

/-- The highest prepared certificate up to a height is one of the table, and none is above it. -/
lemma highestPrepared_spec (hne : ∀ e ∈ s.preparedByHeight.entries, e.2.blockHash ≠ "")
    (height : Nat) :
    ((s.highestPrepared height).1.blockHash ≠ "" → ∃ e ∈ s.preparedByHeight.entries,
        e.1 ≤ height ∧ s.highestPrepared height = (e.2, s.preparedBlocks.get e.1)) ∧
      ∀ e ∈ s.preparedByHeight.entries, e.1 ≤ height →
        (s.highestPrepared height).1.blockHash ≠ "" ∧
          (e.2.view < (s.highestPrepared height).1.view ∨
            e.2.view = (s.highestPrepared height).1.view ∧
              e.2.height ≤ (s.highestPrepared height).1.height) := by
  unfold highestPrepared
  generalize s.preparedByHeight.entries = entries at hne
  induction entries using List.reverseRecOn with
  | nil => exact ⟨fun h => absurd rfl h, by simp⟩
  | append_singleton entries e ih =>
    have hne' : ∀ e' ∈ entries, e'.2.blockHash ≠ "" := fun e' he' => hne e' (by simp [he'])
    obtain ⟨hmem, hle⟩ := ih hne'
    simp only [foldl_append, foldl_cons, foldl_nil]
    generalize entries.foldl (fun (chosen : PreparedCertificate × Block) e =>
      if e.1 ≤ height ∧ e.2.supersedes chosen.1 then (e.2, s.preparedBlocks.get e.1) else chosen)
      (default, default) = chosen at hmem hle
    by_cases htake : e.1 ≤ height ∧ e.2.supersedes chosen.1
    · -- the new certificate takes over, so it is above all earlier ones
      rw [if_pos htake]
      refine ⟨fun _ => ⟨e, by simp, htake.1, rfl⟩, ?_⟩
      intro e' he' hht
      refine ⟨hne e (by simp), ?_⟩
      rcases mem_append.1 he' with he' | he'
      · obtain ⟨hchosen, hbelow⟩ := hle e' he' hht
        have hsup := (supersedes_iff.1 htake.2).resolve_left hchosen
        simp only
        omega
      · rw [mem_singleton.1 he']
        exact .inr ⟨rfl, le_rfl⟩
    · rw [if_neg htake]
      refine ⟨?_, ?_⟩
      · intro hchosen
        obtain ⟨e', he', hrest⟩ := hmem hchosen
        exact ⟨e', by simp [he'], hrest⟩
      · intro e' he' hht
        rcases mem_append.1 he' with he' | he'
        · exact hle e' he' hht
        rw [mem_singleton.1 he'] at hht ⊢
        have hnot : ¬ e.2.supersedes chosen.1 = true := fun hsup => htake ⟨hht, hsup⟩
        rw [supersedes_iff] at hnot
        push Not at hnot
        obtain ⟨hchosen, hview, hh⟩ := hnot
        exact ⟨hchosen, by omega⟩

lemma Highest.keep (h : Highest vcs chosen) (hemp : chosen.1.blockHash = "" → vc.prepared = none)
    (hle : ∀ cert, vc.prepared = some cert → cert.view < chosen.1.view ∨
      cert.view = chosen.1.view ∧ (cert.height < chosen.1.height ∨
        cert.height = chosen.1.height ∧ cert.blockHash = chosen.1.blockHash)) :
    Highest (vcs ++ [vc]) chosen where
  none_of_empty hnone :=
    forall_mem_append.2 ⟨h.none_of_empty hnone, forall_mem_singleton.2 (hemp hnone)⟩
  mem hne := by
    obtain ⟨vc', hmem, hcert⟩ := h.mem hne
    exact ⟨vc', mem_append_left _ hmem, hcert⟩
  le := forall_mem_append.2 ⟨h.le, forall_mem_singleton.2 hle⟩

lemma highest_selectPrepared (hvc : ValidEvidence hash s vc) (hhigh : Highest vcs chosen)
    (h : selectPrepared chosen vc = .ok out) : Highest (vcs ++ [vc]) out := by
  unfold selectPrepared at h
  cases hprep : vc.prepared with
  | none =>
    rw [hprep] at h
    cases h
    exact hhigh.keep (fun _ => hprep) (by simp [hprep])
  | some cert =>
    obtain ⟨b, hb, -⟩ := hvc.block cert hprep
    have hne := (hvc.prepared cert hprep).hash_ne
    simp only [hprep] at h
    split at h
    · -- the new certificate takes over
      rename_i hsup
      cases h
      rw [supersedes_iff] at hsup
      constructor
      · intro hemp
        exact absurd hemp hne
      · intro _
        exact ⟨vc, by simp, hprep, by simp [hb]⟩
      · intro vc' hmem cert' hcert'
        rcases mem_append.1 hmem with hmem | hmem
        · rcases hsup with hemp | hsup
          · simp [hhigh.none_of_empty hemp vc' hmem] at hcert'
          have := hhigh.le vc' hmem cert' hcert'
          simp only
          omega
        · obtain rfl : cert = cert' := by
            simpa [mem_singleton.1 hmem, hprep] using hcert'
          exact .inr ⟨rfl, .inr ⟨rfl, rfl⟩⟩
    · -- the certificate chosen before stays, and is no lower
      rename_i hsup
      simp only [require_bind_eq_ok] at h
      obtain ⟨hconf, hout⟩ := h
      cases hout
      rw [supersedes_iff] at hsup
      simp only [PreparedCertificate.conflicts, Bool.and_eq_true, decide_eq_true_eq,
        not_and, not_not] at hconf
      push Not at hsup
      obtain ⟨hchosen, hview, hht⟩ := hsup
      refine hhigh.keep (fun hemp => absurd hemp hchosen) fun cert' hcert' => ?_
      cases hprep.symm.trans hcert'
      rcases Nat.lt_or_eq_of_le hview with hlt | heq
      · exact .inl hlt
      refine .inr ⟨heq, ?_⟩
      rcases Nat.lt_or_eq_of_le (hht heq) with hlt | heq'
      · exact .inl hlt
      · exact .inr ⟨heq', by simpa using hconf ⟨heq, heq'⟩⟩

lemma checkViewChanges_ok {done : List ViewChange} (hhigh : Highest done chosen)
    (h : s.checkViewChanges hash msg seen chosen vcs = .ok out) :
    Highest (done ++ vcs) out ∧ (vcs.map ViewChange.nodeID).Nodup ∧
      ∀ vc ∈ vcs, vc.nodeID ∉ seen ∧ vc.newView = msg.view ∧ s.isValidator vc.nodeID = true ∧
        ValidEvidence hash s vc := by
  induction vcs generalizing done seen chosen with
  | nil =>
    cases h
    simpa using hhigh
  | cons vc vcs ih =>
    simp only [checkViewChanges, require_bind_eq_ok] at h
    obtain ⟨hseen, ⟨hview, -⟩, hval, h⟩ := h
    obtain ⟨_, hvalid, h⟩ := bind_eq_ok.1 h
    obtain ⟨next, hselect, h⟩ := bind_eq_ok.1 h
    have hev := validateEvidence_ok hvalid
    obtain ⟨hhigh', hnd, hall⟩ := ih (highest_selectPrepared hev hhigh hselect) h
    refine ⟨by simpa using hhigh', ?_, ?_⟩
    · rw [map_cons, nodup_cons]
      refine ⟨?_, hnd⟩
      intro hmem
      obtain ⟨vc', hvc', heq⟩ := mem_map.1 hmem
      exact (hall vc' hvc').1 (by simp [heq])
    · intro vc' hmem
      rcases mem_cons.1 hmem with rfl | hmem
      · exact ⟨hseen, hview, hval, hev⟩
      · obtain ⟨hnot, hrest⟩ := hall vc' hmem
        exact ⟨fun h => hnot (mem_cons_of_mem _ h), hrest⟩

/-- A NEW-VIEW backed by the view changes of a quorum; `selected` says what it carries over. -/
structure ValidNewView (hash : BlockCore → String) (s : State) (msg : NewView) : Prop where
  view_le : s.viewID ≤ msg.view
  quorum_le : s.commitQuorum ≤ msg.viewChanges.length
  nodup : (msg.viewChanges.map ViewChange.nodeID).Nodup
  newView_eq : ∀ vc ∈ msg.viewChanges, vc.newView = msg.view
  validator : ∀ vc ∈ msg.viewChanges, s.isValidator vc.nodeID = true
  evidence : ∀ vc ∈ msg.viewChanges, ValidEvidence hash s vc
  selected : (msg.selectedPrepared = none ∧ msg.selectedBlock = none ∧
      ∀ vc ∈ msg.viewChanges, vc.prepared = none) ∨
    ∃ chosen cert b, Highest msg.viewChanges chosen ∧ chosen.1.blockHash ≠ "" ∧
      msg.selectedPrepared = some cert ∧ msg.selectedBlock = some b ∧
      cert.view = chosen.1.view ∧ cert.sequence = chosen.1.sequence ∧
      cert.height = chosen.1.height ∧ cert.blockHash = chosen.1.blockHash ∧
      b.blockHash = chosen.2.blockHash ∧ hash b.toBlockCore = chosen.2.blockHash

lemma validateNewView_ok (h : s.validateNewView hash msg = .ok u) : ValidNewView hash s msg := by
  unfold validateNewView at h
  simp only [require_bind_eq_ok] at h
  obtain ⟨hview, -, hquor, h⟩ := h
  obtain ⟨chosen, hcheck, h⟩ := bind_eq_ok.1 h
  have hstart : Highest [] ((default, default) : PreparedCertificate × Block) :=
    ⟨by simp, fun hne => absurd rfl hne, by simp⟩
  obtain ⟨hhigh, hnd, hall⟩ := checkViewChanges_ok hstart hcheck
  refine
    { view_le := hview
      quorum_le := hquor
      nodup := hnd
      newView_eq := fun vc hvc => (hall vc hvc).2.1
      validator := fun vc hvc => (hall vc hvc).2.2.1
      evidence := fun vc hvc => (hall vc hvc).2.2.2
      selected := ?_ }
  split at h
  · rename_i hemp
    obtain ⟨hcert, hblk⟩ := require_eq_ok.1 h
    exact .inl ⟨hcert, hblk, hhigh.none_of_empty hemp⟩
  · rename_i hne
    split at h
    · rename_i cert b hcert hblk
      obtain ⟨h₁, h₂, h₃, h₄, h₅, h₆⟩ := require_eq_ok.1 h
      exact .inr ⟨chosen, cert, b, hhigh, hne, hcert, hblk, h₁, h₂, h₃, h₄, h₅, h₆⟩
    · cases h

lemma acceptNewView_ok (h : s.acceptNewView hash msg = .ok (s', b)) : ValidNewView hash s msg ∧
      (msg.view = s.viewID ∧ b = msg.selectedBlock ∧
          s' = { s with acceptedNewViews := s.acceptedNewViews.put msg.view msg } ∨
        s.viewID < msg.view ∧ b = msg.selectedBlock ∧ s' = s.installNewView msg) := by
  obtain ⟨_, hvalid, h⟩ := bind_eq_ok.1 h
  have hvalid := validateNewView_ok hvalid
  refine ⟨hvalid, ?_⟩
  split at h
  · rename_i hsame
    cases h
    exact .inl ⟨hsame, rfl, rfl⟩
  · rename_i hne
    cases h
    refine .inr ⟨lt_of_le_of_ne hvalid.view_le (Ne.symm hne), ?_, rfl⟩
    rcases hvalid.selected with ⟨hcert, hblk, -⟩ | ⟨_, _, _, _, _, hcert, hblk, -⟩
    · simp [hcert, hblk]
    · simp [hcert, hblk]

/-! ## Checkpoints -/

lemma acceptCheckpoint_ok {msg : Checkpoint} {stable : Bool} {cert : CheckpointCertificate}
    (h : s.acceptCheckpoint msg = .ok (s', stable, count, cert)) : let recorded := { s with
      checkpointVotes := s.checkpointVotes.putIn
        (checkpointKey msg.height msg.blockHash msg.stateRoot) msg.nodeID msg }
    s' = recorded ∨ ∃ cp : CheckpointCertificate, cp.height = msg.height ∧
      s.stableCheckpoint.height < msg.height ∧
      (∃ vote, (recorded.checkpointVotes.get (checkpointKey msg.height msg.blockHash
        msg.stateRoot)).find s.nodeID = some vote ∧ vote.height = msg.height) ∧
      s' = pruneStable { recorded with
        stableCheckpoint := cp
        lowWatermark := msg.height
        highWatermark := msg.height + s.watermarkWindow } msg.height := by
  unfold acceptCheckpoint at h
  simp only [require_bind_eq_ok] at h
  obtain ⟨-, -, -, h⟩ := h
  split at h
  · cases h
    exact .inl rfl
  · split at h
    · rename_i hinstall
      cases h
      refine .inr ⟨_, rfl, hinstall.2, ?_, rfl⟩
      have hown := hinstall.1.2
      simp only [Option.any_eq_true, Bool.and_eq_true, decide_eq_true_eq] at hown
      obtain ⟨vote, hvote, ⟨hht, -⟩, -⟩ := hown
      exact ⟨vote, hvote, hht⟩
    · cases h
      exact .inl rfl

lemma buildNewView_ok {nv : NewView} (h : s.buildNewView newView height = .ok nv) :
    s.nodeID = s.leaderForView newView ∧ nv.view = newView ∧ nv.leaderID = s.leaderForView newView ∧
      nv.viewChanges = (s.viewChangeVotes.get newView).sortedValues := by
  unfold buildNewView at h
  simp only [require_bind_eq_ok] at h
  obtain ⟨hlead, -, h⟩ := h
  obtain ⟨chosen, -, hout⟩ := bind_eq_ok.1 h
  cases hout
  exact ⟨hlead, rfl, rfl, rfl⟩

/-! ## What no call changes -/

structure SameReplica (s s' : State) : Prop where
  nodeID : s'.nodeID = s.nodeID
  initialLeaderID : s'.initialLeaderID = s.initialLeaderID
  validatorSet : s'.validatorSet = s.validatorSet

namespace SameReplica

lemma refl (s : State) : SameReplica s s := ⟨rfl, rfl, rfl⟩

lemma trans {s'' : State} (h : SameReplica s s') (h' : SameReplica s' s'') : SameReplica s s'' :=
  ⟨h'.nodeID.trans h.nodeID, h'.initialLeaderID.trans h.initialLeaderID,
    h'.validatorSet.trans h.validatorSet⟩

lemma leaderForView (h : SameReplica s s') (view : Nat) :
    s'.leaderForView view = s.leaderForView view := by
  simp [State.leaderForView, h.initialLeaderID, h.validatorSet]

lemma isValidator (h : SameReplica s s') (nodeID : String) :
    s'.isValidator nodeID = s.isValidator nodeID := by
  simp [State.isValidator, h.validatorSet]

end SameReplica

/-- What a PREPARE can change. -/
lemma acceptPrepare_frame {msg : Prepare} (h : s.acceptPrepare msg = .ok (s', reached, count)) :
    ∃ early slots votes prepared blocks stage, s' = { s with
      earlyPrepareVotes := early, prepareBySlotNode := slots, prepareVotes := votes,
      preparedByHeight := prepared, preparedBlocks := blocks, stage := stage } := by
  cases (acceptPrepare_ok h).2 with
  | buffered | counted => exact ⟨_, _, _, _, _, _, rfl⟩
  | reached =>
    rcases storePrepared_cases (s.recordPrepare msg) _ with ⟨_, hs⟩ | ⟨_, -, -, hs⟩ <;>
      exact ⟨_, _, _, _, _, _, hs⟩

/-- What a COMMIT can change. -/
lemma acceptCommit_frame {msg : Commit} {b : Block}
    (h : s.acceptCommit msg = .ok (s', reached, count, b)) :
    ∃ early slots votes certs blocks stage, s' = { s with
      earlyCommitVotes := early, commitBySlotNode := slots, commitVotes := votes,
      commitCertificates := certs, committedBlocks := blocks, stage := stage } := by
  cases (acceptCommit_ok h).2 with
  | buffered | counted | reached => exact ⟨_, _, _, _, _, _, rfl⟩

lemma sameReplica_acceptPrepare {msg : Prepare}
    (h : s.acceptPrepare msg = .ok (s', reached, count)) : SameReplica s s' := by
  obtain ⟨_, _, _, _, _, _, rfl⟩ := acceptPrepare_frame h
  exact ⟨rfl, rfl, rfl⟩

lemma sameReplica_acceptCommit {msg : Commit} {b : Block}
    (h : s.acceptCommit msg = .ok (s', reached, count, b)) : SameReplica s s' := by
  obtain ⟨_, _, _, _, _, _, rfl⟩ := acceptCommit_frame h
  exact ⟨rfl, rfl, rfl⟩

lemma sameReplica_acceptViewChange {msg : ViewChange}
    (h : s.acceptViewChange hash msg = .ok (s', reached, count)) : SameReplica s s' := by
  rcases (acceptViewChange_ok h).2.2.2 with rfl | ⟨-, rfl⟩
  · exact .refl _
  · exact ⟨rfl, rfl, rfl⟩

lemma sameReplica_markViewChangeBroadcast (newView : Nat) :
    SameReplica s (s.markViewChangeBroadcast newView).1 := by
  unfold markViewChangeBroadcast
  split
  · exact .refl _
  · exact ⟨rfl, rfl, rfl⟩

lemma sameReplica_acceptNewView (h : s.acceptNewView hash msg = .ok (s', b)) :
    SameReplica s s' := by
  rcases (acceptNewView_ok h).2 with ⟨-, -, rfl⟩ | ⟨-, -, rfl⟩
  · exact ⟨rfl, rfl, rfl⟩
  · unfold installNewView
    split <;> exact ⟨rfl, rfl, rfl⟩

end ChainLab.Pbft
