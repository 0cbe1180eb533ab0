import ChainLab.Block.Digest
import ChainLab.Pbft.Calls

/-!
# Vote arrival order

One round of one slot: a pre-prepare, the PREPARE votes of a set of validators and the COMMIT votes
of another, handed to a replica in any order and any number of times.  Votes that come before the
pre-prepare are buffered and replayed.  Whatever the order, each vote ends up once in the vote
tables and the replica holds a commit certificate.
-/

namespace ChainLab.Pbft

open List GoMap
open PrePrepare

def PrePrepare.prepareOf (pre : PrePrepare) (nodeID : String) : Prepare where
  view := pre.view
  sequence := pre.sequence
  height := pre.height
  nodeID := nodeID
  blockHash := pre.blockHash

def PrePrepare.commitOf (pre : PrePrepare) (nodeID : String) : Commit where
  view := pre.view
  sequence := pre.sequence
  height := pre.height
  nodeID := nodeID
  blockHash := pre.blockHash

def PrePrepare.slot (pre : PrePrepare) : Slot := slotKey pre.view pre.sequence

/-! ## Rounds -/

/-- No vote for the slot of `pre` has been seen yet.  The slot may already be locked to the block,
and the height prepared, by the NEW-VIEW that carried the proposal over. -/
structure FreshSlot (s : State) (pre : PrePrepare) : Prop where
  earlyPrepares : s.earlyPrepareVotes.get pre.slot = ∅
  earlyCommits : s.earlyCommitVotes.get pre.slot = ∅
  prepareNodes : s.prepareBySlotNode.get pre.slot = ∅
  commitNodes : s.commitBySlotNode.get pre.slot = ∅
  prepares : s.prepareVotes.get pre.blockHash = ∅
  commits : s.commitVotes.get pre.blockHash = ∅
  prepared : ∀ cert, s.preparedByHeight.find pre.height = some cert → cert.blockHash = pre.blockHash
  block : s.prePrepareBySlot.get pre.slot = pre.blockHash →
    (s.lockedBlocks.get pre.blockHash).blockHash ≠ ""

/-- Call number `i` is an AcceptPrepare that reports a prepare quorum. -/
def ReportsReached (hash : BlockCore → String) (start : State) (calls : List Call) (i : Nat) :
    Prop :=
  ∃ msg s' count, calls[i]? = some (.acceptPrepare msg) ∧
    (callState hash start calls i).acceptPrepare msg = .ok (s', true, count)

/-- A run that hands in a valid pre-prepare and the votes of the validators in `P` and `C`, and
nothing else.  The replica's own PREPARE comes after the pre-prepare, and its own COMMIT after the
first report of a prepare quorum. -/
structure VoteRound (hash : BlockCore → String) (s : State) (pre : PrePrepare)
    (P C : Finset String) (calls : List Call) : Prop where
  valid : ValidPrePrepare hash s pre
  fresh : FreshSlot s pre
  prepare_validator : ∀ node ∈ P, s.isValidator node = true
  commit_validator : ∀ node ∈ C, s.isValidator node = true
  prepare_quorum : s.prepareQuorum ≤ P.card
  commit_quorum : s.commitQuorum ≤ C.card
  only : ∀ c ∈ calls, c = .onPrePrepare pre ∨
    (∃ node ∈ P, c = .acceptPrepare (pre.prepareOf node)) ∨
    ∃ node ∈ C, c = .acceptCommit (pre.commitOf node)
  prepare_mem : ∀ node ∈ P, Call.acceptPrepare (pre.prepareOf node) ∈ calls
  commit_mem : ∀ node ∈ C, Call.acceptCommit (pre.commitOf node) ∈ calls
  ownPrepare : ∃ i j : Nat, i < j ∧ calls[i]? = some (.onPrePrepare pre) ∧
    calls[j]? = some (.acceptPrepare (pre.prepareOf s.nodeID))
  ownCommit : ∀ i, ReportsReached hash s calls i → (∀ k, k < i → ¬ ReportsReached hash s calls k) →
    ∃ j, i < j ∧ calls[j]? = some (.acceptCommit (pre.commitOf s.nodeID))

/-! ## Vote tables -/

/-- The table holds the vote of every node in `seen` and nothing else. -/
def Holds {V : Type} (table : GoMap String V) (vote : String → V) (seen : String → Prop) : Prop :=
  ∀ node v, table.find node = some v ↔ seen node ∧ v = vote node

section Holds

variable {V : Type} {table early : GoMap String V} {vote : String → V} {seen seen' : String → Prop}

lemma holds_empty : Holds (∅ : GoMap String V) vote fun _ => False := by
  intro node v
  simp

lemma Holds.put (h : Holds table vote seen) (node : String) :
    Holds (table.put node (vote node)) vote fun n => seen n ∨ n = node := by
  intro n v
  by_cases hn : n = node
  · subst hn
    simp [eq_comm]
  · simp only [find_put, hn, or_false]
    exact h n v

section Gate

variable {p : Prop} (h : Holds table vote fun n => p ∧ seen n)
include h

lemma Holds.put_of (hp : p) (node : String) :
    Holds (table.put node (vote node)) vote fun n => p ∧ (seen n ∨ n = node) := by
  intro n v
  rw [h.put node n v]
  simp [hp]

lemma Holds.absent (hp : ¬ p) : Holds table vote fun n => p ∧ seen' n := by
  intro n v
  rw [h n v]
  simp [hp]

end Gate

lemma Holds.putAllIn {K : Type} [DecidableEq K] {tables : GoMap K (GoMap String V)} {k : K}
    (h : Holds (tables.get k) vote seen) (hearly : Holds early vote seen') {p : String → V → Bool}
    (hp : ∀ node, p node (vote node) = true) :
    Holds ((tables.putAllIn k (early.retain p) id).get k) vote fun n => seen n ∨ seen' n := by
  intro node v
  have hfind : (early.retain p).find node = early.find node := by
    cases hnode : early.find node with
    | none => simp [find_retain, hnode]
    | some w =>
      have hw := ((hearly node w).1 hnode).2
      simp [find_retain, hnode, hw, hp, Option.filter]
  rw [find_get_putAllIn, hfind]
  cases hnode : early.find node with
  | none =>
    have hnot : ¬ seen' node := by
      intro hseen
      have := (hearly node (vote node)).2 ⟨hseen, rfl⟩
      simp [hnode] at this
    simpa [hnot] using h node v
  | some w =>
    obtain ⟨hseen, rfl⟩ := (hearly node w).1 hnode
    simp [hseen, eq_comm]

lemma Holds.len_congr {table' : GoMap String V} (h : Holds table vote seen)
    (h' : Holds table' vote seen') (hseen : ∀ n, seen n ↔ seen' n) : table.len = table'.len := by
  have hfind : ∀ n v, table.find n = some v ↔ table'.find n = some v := by
    intro n v
    rw [h n v, h' n v, hseen n]
  apply Nat.le_antisymm
  · exact len_le_of_find fun n v hv => ⟨v, (hfind n v).1 hv⟩
  · exact len_le_of_find fun n v hv => ⟨v, (hfind n v).2 hv⟩

lemma Holds.len_eq {S : Finset String} (h : Holds table vote fun n => n ∈ S) :
    table.len = S.card := by
  have hkeys : table.keySet = S := by
    ext node
    rw [mem_keySet]
    constructor
    · rintro ⟨v, hv⟩
      exact ((h node v).1 hv).1
    · intro hnode
      exact ⟨vote node, (h node _).2 ⟨hnode, rfl⟩⟩
  rw [← card_keySet, hkeys]

end Holds

/-! ## The state in the course of a round -/

/-- The votes in `seenP` and `seenC` have been handed in: they are buffered while the slot has no
pre-prepare, and counted once it has. -/
structure Tracks (start : State) (pre : PrePrepare) (seenP seenC : String → Prop) (s : State) :
    Prop where
  viewID : s.viewID = start.viewID
  validatorSet : s.validatorSet = start.validatorSet
  initialLeaderID : s.initialLeaderID = start.initialLeaderID
  lowWatermark : s.lowWatermark = start.lowWatermark
  highWatermark : s.highWatermark = start.highWatermark
  lock : s.prePrepareBySlot.get pre.slot = "" ∨ s.prePrepareBySlot.get pre.slot = pre.blockHash
  prepareNodes : ∀ node, (s.prepareBySlotNode.get pre.slot).get node = "" ∨
    (s.prepareBySlotNode.get pre.slot).get node = pre.blockHash
  commitNodes : ∀ node, (s.commitBySlotNode.get pre.slot).get node = "" ∨
    (s.commitBySlotNode.get pre.slot).get node = pre.blockHash
  prepared : ∀ cert, s.preparedByHeight.find pre.height = some cert → cert.blockHash = pre.blockHash
  block : s.prePrepareBySlot.get pre.slot = pre.blockHash →
    (s.lockedBlocks.get pre.blockHash).blockHash ≠ ""
  earlyPrepares : Holds (s.earlyPrepareVotes.get pre.slot) pre.prepareOf fun n =>
    s.prePrepareBySlot.get pre.slot = "" ∧ seenP n
  prepares : Holds (s.prepareVotes.get pre.blockHash) pre.prepareOf fun n =>
    s.prePrepareBySlot.get pre.slot ≠ "" ∧ seenP n
  earlyCommits : Holds (s.earlyCommitVotes.get pre.slot) pre.commitOf fun n =>
    s.prePrepareBySlot.get pre.slot = "" ∧ seenC n
  commits : Holds (s.commitVotes.get pre.blockHash) pre.commitOf fun n =>
    s.prePrepareBySlot.get pre.slot ≠ "" ∧ seenC n

/-- The replica holds a commit certificate for the block of the round, with the votes of a quorum
of distinct nodes. -/
def Certified (start : State) (pre : PrePrepare) (s : State) : Prop :=
  ∃ cert, s.commitCertificates.find pre.height = some cert ∧ cert.blockHash = pre.blockHash ∧
    start.commitQuorum ≤ cert.commits.length ∧ (cert.commits.map Commit.nodeID).Nodup

variable {hash : BlockCore → String} {start s s' : State} {pre : PrePrepare}
  {P C : Finset String} {calls : List Call} {seenP seenC : String → Prop}

lemma FreshSlot.tracks (h : FreshSlot start pre) (hval : ValidPrePrepare hash start pre) :
    Tracks start pre (fun _ => False) (fun _ => False) start where
  viewID := rfl
  validatorSet := rfl
  initialLeaderID := rfl
  lowWatermark := rfl
  highWatermark := rfl
  lock := hval.lock
  prepareNodes := by simp [h.prepareNodes]
  commitNodes := by simp [h.commitNodes]
  __ := h
  earlyPrepares := by simpa [h.earlyPrepares] using holds_empty
  prepares := by simpa [h.prepares] using holds_empty
  earlyCommits := by simpa [h.earlyCommits] using holds_empty
  commits := by simpa [h.commits] using holds_empty

namespace Tracks

section

variable (h : Tracks start pre seenP seenC s)

include h

lemma congr {seenP' seenC' : String → Prop}
    (hP : ∀ n, seenP n ↔ seenP' n) (hC : ∀ n, seenC n ↔ seenC' n) :
    Tracks start pre seenP' seenC' s := by
  obtain rfl : seenP = seenP' := funext fun n => propext (hP n)
  obtain rfl : seenC = seenC' := funext fun n => propext (hC n)
  exact h

lemma inWatermarks (height : Nat) : s.inWatermarks height = start.inWatermarks height := by
  simp [State.inWatermarks, h.lowWatermark, h.highWatermark]

lemma isValidator (node : String) : s.isValidator node = start.isValidator node := by
  simp [State.isValidator, h.validatorSet]

end

variable {node : String}

section

variable (h : Tracks start pre seenP seenC s)

include h

section

variable (hval : ValidPrePrepare hash start pre)

include hval

lemma admitsVote (hnode : start.isValidator node = true) :
    AdmitsVote s node pre.view pre.sequence pre.height where
  validator := by rw [h.isValidator, hnode]
  view_eq := by rw [h.viewID, hval.view_eq]
  __ := hval
  inWatermarks := by rw [h.inWatermarks, hval.inWatermarks]

lemma validPrePrepare : ValidPrePrepare hash s pre where
  view_eq := by rw [h.viewID, hval.view_eq]
  leader_eq := by
    rw [hval.leader_eq]
    simp [State.leaderForView, h.validatorSet, h.initialLeaderID]
  __ := hval
  inWatermarks := by rw [h.inWatermarks, hval.inWatermarks]
  lock := h.lock
  prepared := by
    cases hfind : s.preparedByHeight.find pre.height with
    | none => exact .inl (by simp [GoMap.get, hfind]; rfl)
    | some cert =>
      right
      rw [get_of_find hfind]
      exact h.prepared cert hfind

lemma lockPrePrepare : Tracks start pre seenP seenC (s.lockPrePrepare pre) := by
  have hslot : (s.lockPrePrepare pre).prePrepareBySlot.get pre.slot = pre.blockHash := by
    simp [State.lockPrePrepare, State.replayEarlyVotes, get_put, slot]
  have hne := hval.hash_ne
  have hearly : (s.lockPrePrepare pre).earlyPrepareVotes.get pre.slot = ∅ ∧
      (s.lockPrePrepare pre).earlyCommitVotes.get pre.slot = ∅ := by
    simp only [State.lockPrePrepare, State.replayEarlyVotes, get_delete, slot, if_true]
    exact ⟨rfl, rfl⟩
  have hmerge : ∀ {seen : String → Prop} (n : String),
      ((s.prePrepareBySlot.get pre.slot ≠ "" ∧ seen n) ∨
        (s.prePrepareBySlot.get pre.slot = "" ∧ seen n)) ↔
      ((s.lockPrePrepare pre).prePrepareBySlot.get pre.slot ≠ "" ∧ seen n) := by
    intro seen n
    rw [hslot]
    tauto
  refine
    { h with
      lock := .inr hslot
      prepareNodes := ?_
      commitNodes := ?_
      block := ?_
      earlyPrepares := ?_
      prepares := ?_
      earlyCommits := ?_
      commits := ?_ }
  · intro node
    rcases get_get_putAllIn_const s.prepareBySlotNode pre.slot
      ((s.earlyPrepareVotes.get pre.slot).retain fun _ vote => vote.blockHash = pre.blockHash)
      pre.blockHash node with heq | heq
    · exact .inr heq
    · exact heq ▸ h.prepareNodes node
  · intro node
    rcases get_get_putAllIn_const s.commitBySlotNode pre.slot
      ((s.earlyCommitVotes.get pre.slot).retain fun _ vote => vote.blockHash = pre.blockHash)
      pre.blockHash node with heq | heq
    · exact .inr heq
    · exact heq ▸ h.commitNodes node
  · intro _
    have hget : (s.lockPrePrepare pre).lockedBlocks.get pre.blockHash = pre.block := by
      simp [State.lockPrePrepare, State.replayEarlyVotes, get_put]
    rw [hget, hval.block_hash]
    exact hne
  · simpa [hearly.1, hslot, hne] using holds_empty
  · have hcount := h.prepares.putAllIn h.earlyPrepares
      (p := fun _ vote => vote.blockHash = pre.blockHash) (by simp [prepareOf])
    simp only [hmerge] at hcount
    exact hcount
  · simpa [hearly.2, hslot, hne] using holds_empty
  · have hcount := h.commits.putAllIn h.earlyCommits
      (p := fun _ vote => vote.blockHash = pre.blockHash) (by simp [commitOf])
    simp only [hmerge] at hcount
    exact hcount

end

lemma recordPrepare (hlock : s.prePrepareBySlot.get pre.slot ≠ "") (node : String) :
    Tracks start pre (fun n => seenP n ∨
      n = node) seenC (s.recordPrepare (pre.prepareOf node)) := by
  refine
    { h with
      prepareNodes := ?_
      earlyPrepares := h.earlyPrepares.absent hlock
      prepares := ?_ }
  · intro n
    simp only [State.recordPrepare, prepareOf, slot, get_putIn, if_true, get_put]
    split
    · exact .inr rfl
    · exact h.prepareNodes n
  · have hget : (s.recordPrepare (pre.prepareOf node)).prepareVotes.get pre.blockHash =
        (s.prepareVotes.get pre.blockHash).put node (pre.prepareOf node) := by
      simp [State.recordPrepare, prepareOf, get_putIn]
    rw [hget]
    exact h.prepares.put_of hlock node

lemma storePrepared (cert : PreparedCertificate)
    (hht : cert.height = pre.height) (hhash : cert.blockHash = pre.blockHash) :
    Tracks start pre seenP seenC (s.storePrepared cert) ∧
      ∃ stored, (s.storePrepared cert).preparedByHeight.find pre.height = some stored := by
  rcases storePrepared_cases s cert with ⟨blocks, hs⟩ | ⟨existing, hfind, -, hs⟩
  · rw [hs]
    refine ⟨{ h with prepared := ?_ }, cert, by simp [hht]⟩
    intro stored hstor
    simp only [hht, find_put_self, Option.some.injEq] at hstor
    rw [← hstor, hhash]
  · rw [hs]
    exact ⟨{ h with }, existing, hht ▸ hfind⟩

lemma acceptPrepare (hval : ValidPrePrepare hash start pre)
    (hnode : start.isValidator node = true) :
    ∃ s' reached count, s.acceptPrepare (pre.prepareOf node) = .ok (s', reached, count) ∧
      Tracks start pre (fun n => seenP n ∨ n = node) seenC s' ∧
      s'.prePrepareBySlot = s.prePrepareBySlot ∧
      s'.commitCertificates = s.commitCertificates ∧
      (s.prePrepareBySlot.get pre.slot ≠ "" →
        s.prepareQuorum ≤ (s'.prepareVotes.get pre.blockHash).len → reached = true) ∧
      (reached = true ∨ (∃ cert, s.preparedByHeight.find pre.height = some cert) →
        ∃ cert, s'.preparedByHeight.find pre.height = some cert) := by
  have hearly : ∀ existing, (s.earlyPrepareVotes.get pre.slot).find node = some existing →
      existing.blockHash = pre.blockHash := by
    intro existing hfind
    rw [((h.earlyPrepares node existing).1 hfind).2]
    rfl
  obtain ⟨s', reached, count, hok⟩ : ∃ s' reached count, s.acceptPrepare (pre.prepareOf node) =
      .ok (s', reached, count) :=
    acceptPrepare_succeeds rfl (h.admitsVote hval hnode) h.lock hearly (h.prepareNodes node)
  refine ⟨s', reached, count, hok, ?_⟩
  cases (acceptPrepare_ok hok).2 with
  | buffered hlock _ =>
    refine ⟨{ h with earlyPrepares := ?_, prepares := h.prepares.absent (not_not.2 hlock) },
      rfl, rfl, fun hne => absurd hlock hne, by simp⟩
    have hput := h.earlyPrepares.put_of hlock node
    simpa only [get_putIn, slot, prepareOf, if_true] using hput
  | counted hlock hne hshort =>
    have hlck : s.prePrepareBySlot.get pre.slot ≠ "" := hlock.trans_ne hne
    refine ⟨h.recordPrepare hlck node, rfl, rfl, ?_, ?_⟩
    · intro _ hquor
      exact absurd hquor (Nat.not_le_of_lt hshort)
    · simp [State.recordPrepare]
  | reached hlock hne hquor =>
    have hlck : s.prePrepareBySlot.get pre.slot ≠ "" := hlock.trans_ne hne
    have hstore := (h.recordPrepare hlck node).storePrepared
    refine ⟨(hstore _ rfl rfl).1, ?_, ?_, fun _ _ => rfl, fun _ => (hstore _ rfl rfl).2⟩
    all_goals
      rcases storePrepared_cases (s.recordPrepare (pre.prepareOf node)) _ with ⟨_,
          hs⟩ | ⟨_, -, -, hs⟩
      · rw [hs]
        rfl
      · rw [hs]
        rfl

lemma recordCommit (hlock : s.prePrepareBySlot.get pre.slot ≠ "") (node : String) :
    Tracks start pre seenP (fun n => seenC n ∨ n = node) (s.recordCommit (pre.commitOf node)) := by
  refine
    { h with
      commitNodes := ?_
      earlyCommits := h.earlyCommits.absent hlock
      commits := ?_ }
  · intro n
    simp only [State.recordCommit, commitOf, slot, get_putIn, if_true, get_put]
    split
    · exact .inr rfl
    · exact h.commitNodes n
  · have hget : (s.recordCommit (pre.commitOf node)).commitVotes.get pre.blockHash =
        (s.commitVotes.get pre.blockHash).put node (pre.commitOf node) := by
      simp [State.recordCommit, commitOf, get_putIn]
    rw [hget]
    exact h.commits.put_of hlock node

lemma sortedCommits_nodup :
    ((State.sortedCommits (s.commitVotes.get pre.blockHash)).map Commit.nodeID).Nodup := by
  have hkey : ∀ node vote, (s.commitVotes.get pre.blockHash).find node = some vote →
      vote.nodeID = node := by
    intro node vote hfind
    rw [((h.commits node vote).1 hfind).2]
    rfl
  unfold State.sortedCommits
  rw [map_sortedValues (g := id) hkey, map_id]
  exact (perm_insertionSort _ _).nodup_iff.2 (AList.keys_nodup _)

lemma acceptCommit (hval : ValidPrePrepare hash start pre) (hnode : start.isValidator node = true) :
    ∃ s' reached count b, s.acceptCommit (pre.commitOf node) = .ok (s', reached, count, b) ∧
      Tracks start pre seenP (fun n => seenC n ∨ n = node) s' ∧
      s'.prePrepareBySlot = s.prePrepareBySlot ∧ s'.preparedByHeight = s.preparedByHeight ∧
      (s.prePrepareBySlot.get pre.slot ≠ "" →
        (∃ cert, s.preparedByHeight.find pre.height = some cert) →
        start.commitQuorum ≤ (s'.commitVotes.get pre.blockHash).len → Certified start pre s') ∧
      (Certified start pre s → Certified start pre s') := by
  have hearly : ∀ existing, (s.earlyCommitVotes.get pre.slot).find node = some existing →
      existing.blockHash = pre.blockHash := by
    intro existing hfind
    rw [((h.earlyCommits node existing).1 hfind).2]
    rfl
  have hquorum_eq : s.commitQuorum = start.commitQuorum := by
    simp [State.commitQuorum, h.validatorSet]
  obtain ⟨s', reached, count, b, hok⟩ : ∃ s' reached count b, s.acceptCommit (pre.commitOf node) =
      .ok (s', reached, count, b) :=
    acceptCommit_succeeds rfl (h.admitsVote hval hnode) h.lock hearly (h.commitNodes node)
  refine ⟨s', reached, count, b, hok, ?_⟩
  cases (acceptCommit_ok hok).2 with
  | buffered hlock _ =>
    refine ⟨{ h with earlyCommits := ?_, commits := h.commits.absent (not_not.2 hlock) }, rfl, rfl,
      fun hne => absurd hlock hne, id⟩
    have hput := h.earlyCommits.put_of hlock node
    simpa only [get_putIn, slot, commitOf, if_true] using hput
  | counted hlock hne hopen =>
    have hlck : s.prePrepareBySlot.get pre.slot ≠ "" := hlock.trans_ne hne
    refine ⟨h.recordCommit hlck node, rfl, rfl, ?_, id⟩
    rintro _ ⟨cert, hcert⟩ hquor
    refine absurd ⟨?_, ⟨cert, hcert, h.prepared cert hcert⟩, h.block hlock⟩ hopen
    rw [hquorum_eq]
    exact hquor
  | reached hlock hne hquor hprep hblk =>
    have hlck : s.prePrepareBySlot.get pre.slot ≠ "" := hlock.trans_ne hne
    have hrec := h.recordCommit hlck node
    have hcertified : Certified start pre
        { s.recordCommit (pre.commitOf node) with
          commitCertificates := s.commitCertificates.put pre.height
            { view := pre.view, sequence := pre.sequence, height := pre.height,
              blockHash := pre.blockHash,
              commits := State.sortedCommits
                ((s.recordCommit (pre.commitOf node)).commitVotes.get pre.blockHash) } } := by
      refine ⟨_, find_put_self _ _ _, rfl, ?_, hrec.sortedCommits_nodup⟩
      simp only [State.sortedCommits, length_sortedValues]
      rw [← hquorum_eq]
      exact hquor
    exact ⟨{ hrec with }, rfl, rfl, fun _ _ _ => hcertified, fun _ => hcertified⟩

end

end Tracks

/-! ## The run of a round -/

/-- The node's PREPARE is among the first `i` calls. -/
def SeenPrepare (pre : PrePrepare) (calls : List Call) (i : Nat) (node : String) : Prop :=
  ∃ k, k < i ∧ calls[k]? = some (.acceptPrepare (pre.prepareOf node))

/-- The node's COMMIT is among the first `i` calls. -/
def SeenCommit (pre : PrePrepare) (calls : List Call) (i : Nat) (node : String) : Prop :=
  ∃ k, k < i ∧ calls[k]? = some (.acceptCommit (pre.commitOf node))

/-- What one call of a round does, apart from the tables. -/
structure RoundStep (start : State) (pre : PrePrepare) (c : Call) (s s' : State) : Prop where
  locked : s.prePrepareBySlot.get pre.slot ≠ "" ∨ c = .onPrePrepare pre →
    s'.prePrepareBySlot.get pre.slot ≠ ""
  prepared : (∃ cert, s.preparedByHeight.find pre.height = some cert) →
    ∃ cert, s'.preparedByHeight.find pre.height = some cert
  certified : Certified start pre s → Certified start pre s'
  certifies : ∀ node, c = .acceptCommit (pre.commitOf node) → s.prePrepareBySlot.get pre.slot ≠ "" →
    (∃ cert, s.preparedByHeight.find pre.height = some cert) →
    start.commitQuorum ≤ (s'.commitVotes.get pre.blockHash).len → Certified start pre s'
  reports : ∀ node, c = .acceptPrepare (pre.prepareOf node) → s.prePrepareBySlot.get pre.slot ≠ "" →
    start.prepareQuorum ≤ (s'.prepareVotes.get pre.blockHash).len →
    ∃ t count, s.acceptPrepare (pre.prepareOf node) = .ok (t, true, count)
  reported : ∀ msg t count, c = .acceptPrepare msg → s.acceptPrepare msg = .ok (t, true, count) →
    s'.prePrepareBySlot.get pre.slot ≠ "" ∧ ∃ cert, s'.preparedByHeight.find pre.height = some cert

namespace VoteRound

variable {c : Call} {i j k : Nat} {node : String}

lemma step (h : VoteRound hash start pre P C calls) (hc : c ∈ calls)
    (htracks : Tracks start pre seenP seenC s) :
    Tracks start pre (fun n => seenP n ∨ c = .acceptPrepare (pre.prepareOf n))
        (fun n => seenC n ∨ c = .acceptCommit (pre.commitOf n)) (s.call hash c) ∧
      RoundStep start pre c s (s.call hash c) := by
  have hquor : s.prepareQuorum = start.prepareQuorum := by
    simp [State.prepareQuorum, htracks.validatorSet]
  rcases h.only c hc with rfl | ⟨node, hnode, rfl⟩ | ⟨node, hnode, rfl⟩
  · have hcall : s.call hash (.onPrePrepare pre) = s.lockPrePrepare pre := by
      simp only [State.call, stateOr,
        onPrePrepare_eq_ok.2 ⟨htracks.validPrePrepare h.valid, rfl, rfl⟩]
    rw [hcall]
    refine ⟨by simpa using htracks.lockPrePrepare h.valid, ?_⟩
    have hlck : (s.lockPrePrepare pre).prePrepareBySlot.get pre.slot ≠ "" := by
      simpa [State.lockPrePrepare, State.replayEarlyVotes, get_put, slot] using h.valid.hash_ne
    exact ⟨fun _ => hlck, id, id, by simp, by simp, by simp⟩
  · rcases htracks.acceptPrepare h.valid (h.prepare_validator node hnode) with
      ⟨s', reached, count, hok, htracks', hlock, hcerts, hreach, hprep⟩
    have hcall : s.call hash (.acceptPrepare (pre.prepareOf node)) = s' := by
      simp only [State.call, stateOr, hok]
    have hname : ∀ n, pre.prepareOf node = pre.prepareOf n ↔ n = node := by
      intro n
      simp [prepareOf, eq_comm]
    rw [hcall]
    refine ⟨by simpa [hname] using htracks', ?_, fun hcert => hprep (.inr hcert), ?_, by simp,
      ?_, ?_⟩
    · simp [hlock]
    · simp [Certified, hcerts]
    · intro n hn hlck hq
      have hsame : n = node := by simpa [hname] using hn
      subst hsame
      have : reached = true := hreach hlck (hquor ▸ hq)
      subst this
      exact ⟨s', count, hok⟩
    · intro msg t count' hmsg hok'
      have hsame : pre.prepareOf node = msg := by simpa using hmsg
      subst hsame
      have hout := hok.symm.trans hok'
      simp only [Except.ok.injEq, Prod.mk.injEq] at hout
      refine ⟨?_, hprep (.inl hout.2.1)⟩
      -- a quorum is only reported for a locked slot
      rw [hlock]
      intro hemp
      have houtcome := (acceptPrepare_ok hok').2
      cases houtcome with
      | reached hlock' hne _ => exact hne (hlock'.symm.trans hemp)
  · rcases htracks.acceptCommit h.valid (h.commit_validator node hnode) with
      ⟨s', reached, count, b, hok, htracks', hlock, hprep, hcertifies, hcertified⟩
    have hcall : s.call hash (.acceptCommit (pre.commitOf node)) = s' := by
      simp only [State.call, stateOr, hok]
    have hname : ∀ n, pre.commitOf node = pre.commitOf n ↔ n = node := by
      intro n
      simp [commitOf, eq_comm]
    rw [hcall]
    refine ⟨by simpa [hname] using htracks', ?_, ?_, hcertified, ?_, by simp, by simp⟩
    · simp [hlock]
    · simp [hprep]
    · intro n _ hlck hcert hq
      exact hcertifies hlck hcert hq

lemma seen_succ : (∃ k, k < i + 1 ∧ calls[k]? = some c) ↔
      (∃ k, k < i ∧ calls[k]? = some c) ∨ calls[i]? = some c := by
  constructor
  · rintro ⟨k, hk, hcall⟩
    rcases Nat.lt_succ_iff_lt_or_eq.1 hk with hlt | rfl
    · exact .inl ⟨k, hlt, hcall⟩
    · exact .inr hcall
  · rintro (⟨k, hk, hcall⟩ | hcall)
    · exact ⟨k, Nat.lt_succ_of_lt hk, hcall⟩
    · exact ⟨i, Nat.lt_succ_self i, hcall⟩

section

variable (h : VoteRound hash start pre P C calls)

include h

lemma tracks (i : Nat) : Tracks start pre (SeenPrepare pre calls i) (SeenCommit pre calls i)
      (callState hash start calls i) := by
  induction i with
  | zero =>
    exact (h.fresh.tracks h.valid).congr (by simp [SeenPrepare]) (by simp [SeenCommit])
  | succ i ih =>
    cases hc : calls[i]? with
    | none =>
      rw [callState, Run.stateAt_succ_of_none hc]
      exact ih.congr (fun n => by simp only [SeenPrepare, seen_succ, hc, reduceCtorEq, or_false])
        (fun n => by simp only [SeenCommit, seen_succ, hc, reduceCtorEq, or_false])
    | some c =>
      rw [callState, Run.stateAt_succ hc]
      exact (h.step (mem_of_getElem? hc) ih).1.congr
        (fun n => by simp only [SeenPrepare, seen_succ, hc, Option.some.injEq])
        (fun n => by simp only [SeenCommit, seen_succ, hc, Option.some.injEq])

lemma roundStep (hc : calls[i]? = some c) :
    RoundStep start pre c (callState hash start calls i) (callState hash start calls (i + 1)) := by
  rw [callState, callState, Run.stateAt_succ hc]
  exact (h.step (mem_of_getElem? hc) (h.tracks i)).2

lemma persists {Q : State → Prop} (hij : i ≤ j) (hi : Q (callState hash start calls i))
    (hstep : ∀ c s s', RoundStep start pre c s s' → Q s → Q s') :
    Q (callState hash start calls j) := by
  refine Run.stretch_induction hij hi ?_
  intro k c _ _ hc hk
  have hround := h.roundStep hc
  rw [callState, callState, Run.stateAt_succ hc] at hround
  exact hstep c _ _ hround hk

lemma locked_mono (hij : i ≤ j)
    (hlck : (callState hash start calls i).prePrepareBySlot.get pre.slot ≠ "") :
    (callState hash start calls j).prePrepareBySlot.get pre.slot ≠ "" := by
  refine h.persists (Q := fun s : State => s.prePrepareBySlot.get pre.slot ≠ "") hij hlck ?_
  intro c s s' hstep hl
  exact hstep.locked (.inl hl)

end

/-- A PREPARE handed in for a locked slot leaves behind a report as soon as the table has a
quorum. -/
lemma exists_report (h : VoteRound hash start pre P C calls)
    (hlck : (callState hash start calls k).prePrepareBySlot.get pre.slot ≠ "")
    (hcall : calls[k]? = some (.acceptPrepare (pre.prepareOf node))) (hki : k < i)
    (hquor : start.prepareQuorum ≤
      ((callState hash start calls i).prepareVotes.get pre.blockHash).len) :
    ∃ r, r < i ∧ ReportsReached hash start calls r := by
  induction hki with
  | refl =>
    obtain ⟨t, count, hok⟩ := (h.roundStep hcall).reports node rfl hlck hquor
    exact ⟨k, Nat.lt_succ_self k, _, t, count, hcall, hok⟩
  | @step i hki ih =>
    have hlck' := h.locked_mono (Nat.le_of_lt hki) hlck
    by_cases hprepare : ∃ node', calls[i]? = some (.acceptPrepare (pre.prepareOf node'))
    · obtain ⟨node', hcall'⟩ := hprepare
      obtain ⟨t, count, hok⟩ := (h.roundStep hcall').reports node' rfl hlck' hquor
      exact ⟨i, Nat.lt_succ_self i, _, t, count, hcall', hok⟩
    · -- no PREPARE came in, so the table is as it was
      have hlen := (h.tracks (i + 1)).prepares.len_congr (h.tracks i).prepares (by
        intro n
        have hnot : calls[i]? ≠ some (.acceptPrepare (pre.prepareOf n)) :=
          fun hcall' => hprepare ⟨n, hcall'⟩
        have hnext := h.locked_mono (Nat.le_succ i) hlck'
        simp only [SeenPrepare, seen_succ, hnot, or_false, ne_eq, hlck', hnext, not_false_eq_true])
      obtain ⟨r, hr, hrep⟩ := ih (hlen ▸ hquor)
      exact ⟨r, Nat.lt_succ_of_lt hr, hrep⟩

lemma certified_after (h : VoteRound hash start pre P C calls) {r : Nat}
    (hrep : ReportsReached hash start calls r) (hrk : r < k)
    (hcall : calls[k]? = some (.acceptCommit (pre.commitOf node))) (hki : k < i)
    (hquor : start.commitQuorum ≤
      ((callState hash start calls i).commitVotes.get pre.blockHash).len) :
    Certified start pre (callState hash start calls i) := by
  obtain ⟨msg, t, count, hmsg, hok⟩ := hrep
  have hafter := (h.roundStep hmsg).reported msg t count rfl hok
  have hlck : ∀ j, r < j → (callState hash start calls j).prePrepareBySlot.get pre.slot ≠ "" :=
    fun j hj => h.locked_mono hj hafter.1
  have hprep : ∀ j, r < j →
      ∃ cert, (callState hash start calls j).preparedByHeight.find pre.height = some cert := by
    intro j hj
    exact h.persists (Q := fun s : State => ∃ cert, s.preparedByHeight.find pre.height = some cert)
      hj hafter.2 fun c s s' hstep => hstep.prepared
  induction hki with
  | refl => exact (h.roundStep hcall).certifies node rfl (hlck k hrk) (hprep k hrk) hquor
  | @step i hki ih =>
    have hri : r < i := Nat.lt_trans hrk hki
    by_cases hcom : ∃ node', calls[i]? = some (.acceptCommit (pre.commitOf node'))
    · obtain ⟨node', hcall'⟩ := hcom
      exact (h.roundStep hcall').certifies node' rfl (hlck i hri) (hprep i hri) hquor
    have hlen := (h.tracks (i + 1)).commits.len_congr (h.tracks i).commits (by
      intro n
      have hnot : calls[i]? ≠ some (.acceptCommit (pre.commitOf n)) :=
        fun hcall' => hcom ⟨n, hcall'⟩
      have hnext := hlck (i + 1) (Nat.lt_succ_of_lt hri)
      simp only [SeenCommit, seen_succ, hnot, or_false, ne_eq, hlck i hri, hnext,
        not_false_eq_true])
    refine h.persists (Nat.le_succ i) (ih (hlen ▸ hquor)) ?_
    intro c s s' hstep
    exact hstep.certified

end VoteRound

/-- Whatever the order of a round, the replica ends with a commit certificate for its block, every
vote of the round is in the tables, and each validator is counted once. -/
theorem voteRound_certified (h : VoteRound hash start pre P C calls) :
    let final := callState hash start calls calls.length
    Certified start pre final ∧
      Holds (final.prepareVotes.get pre.blockHash) pre.prepareOf (fun node => node ∈ P) ∧
      Holds (final.commitVotes.get pre.blockHash) pre.commitOf (fun node => node ∈ C) ∧
      (final.prepareVotes.get pre.blockHash).len = P.card ∧
      (final.commitVotes.get pre.blockHash).len = C.card := by
  intro final
  obtain ⟨i, j, hij, hpre, hown⟩ := h.ownPrepare
  have hbound : ∀ {k : Nat} {c : Call}, calls[k]? = some c → k < calls.length := by
    intro k c hk
    exact (List.getElem?_eq_some_iff.1 hk).1
  have hlocked : ∀ k, i < k → (callState hash start calls k).prePrepareBySlot.get pre.slot ≠
      "" := by
    intro k hk
    exact h.locked_mono hk ((h.roundStep hpre).locked (.inr rfl))
  have hfinal := hlocked calls.length (hbound hpre)
  have hmem : ∀ c : Call, (∃ k, k < calls.length ∧ calls[k]? = some c) ↔ c ∈ calls := by
    intro c
    rw [mem_iff_getElem?]
    exact ⟨fun ⟨k, _, hk⟩ => ⟨k, hk⟩, fun ⟨k, hk⟩ => ⟨k, hbound hk, hk⟩⟩
  have hP : Holds (final.prepareVotes.get pre.blockHash) pre.prepareOf fun node => node ∈ P := by
    intro node v
    refine ((h.tracks calls.length).prepares node v).trans ?_
    have hseen : SeenPrepare pre calls calls.length node ↔ node ∈ P := by
      rw [SeenPrepare, hmem]
      refine ⟨fun hc => ?_, h.prepare_mem node⟩
      rcases h.only _ hc with h' | ⟨n, hn, h'⟩ | ⟨n, -, h'⟩
      · cases h'
      · have : node = n := by simpa [PrePrepare.prepareOf] using h'
        exact this ▸ hn
      · cases h'
    simp [hfinal, hseen]
  have hC : Holds (final.commitVotes.get pre.blockHash) pre.commitOf fun node => node ∈ C := by
    intro node v
    refine ((h.tracks calls.length).commits node v).trans ?_
    have hseen : SeenCommit pre calls calls.length node ↔ node ∈ C := by
      rw [SeenCommit, hmem]
      refine ⟨fun hc => ?_, h.commit_mem node⟩
      rcases h.only _ hc with h' | ⟨n, -, h'⟩ | ⟨n, hn, h'⟩
      · cases h'
      · cases h'
      · have : node = n := by simpa [PrePrepare.commitOf] using h'
        exact this ▸ hn
    simp [hfinal, hseen]
  refine ⟨?_, hP, hC, hP.len_eq, hC.len_eq⟩
  -- the own PREPARE comes after the lock, so a report exists; take the first one
  have hreport := h.exists_report (hlocked j hij) hown (hbound hown)
    (by rw [hP.len_eq]; exact h.prepare_quorum)
  classical
  have hexists : ∃ r, ReportsReached hash start calls r := hreport.imp fun _ hr => hr.2
  rcases h.ownCommit (Nat.find hexists) (Nat.find_spec hexists)
      (fun k hk => Nat.find_min hexists hk)
    with ⟨k, hrk, hcommit⟩
  exact h.certified_after (Nat.find_spec hexists) hrk hcommit (hbound hcommit)
    (by rw [hC.len_eq]; exact h.commit_quorum)

/-- The votes of `a` and `c` come first, some of them twice; then the proposal and the votes of the
replica `b` itself. -/
def shuffledRound : List Call :=
  let pre : PrePrepare := .ofBlock 0 "a" (plainBlock 1 "a")
  [.acceptCommit (pre.commitOf "a"), .acceptPrepare (pre.prepareOf "a"),
    .acceptCommit (pre.commitOf "c"), .acceptPrepare (pre.prepareOf "c"),
    .acceptPrepare (pre.prepareOf "a"), .onPrePrepare pre, .acceptPrepare (pre.prepareOf "b"),
    .acceptCommit (pre.commitOf "b")]

lemma shuffledRound_voteRound : VoteRound plainDigest (State.new "b" "a" ["a", "b", "c", "d"])
      (.ofBlock 0 "a" (plainBlock 1 "a")) {"a", "b", "c"} {"a", "b", "c"} shuffledRound where
  valid := validatePrePrepare_eq_ok.1 (by decide)
  fresh :=
    ⟨rfl, rfl, rfl, rfl, rfl, rfl, by simp [State.new], by simp [State.new, GoMap.get]; decide⟩
  prepare_validator := by decide
  commit_validator := by decide
  prepare_quorum := by decide
  commit_quorum := by decide
  only := by simp [shuffledRound]
  prepare_mem := by simp [shuffledRound]
  commit_mem := by simp [shuffledRound]
  ownPrepare := ⟨5, 6, by decide, rfl, rfl⟩
  ownCommit := by
    rintro i ⟨msg, s', count, hcall, -⟩ -
    refine ⟨7, ?_, rfl⟩
    by_contra hge
    have hlt := (List.getElem?_eq_some_iff.1 hcall).1
    obtain rfl : i = 7 := by
      simp only [shuffledRound, length_cons, length_nil] at hlt
      omega
    cases hcall

theorem voteRound_certified_shuffledRound :
    VoteRound plainDigest (State.new "b" "a" ["a", "b", "c", "d"])
        (.ofBlock 0 "a" (plainBlock 1 "a")) {"a", "b", "c"} {"a", "b", "c"} shuffledRound ∧
      Certified (State.new "b" "a" ["a", "b", "c", "d"]) (.ofBlock 0 "a" (plainBlock 1 "a"))
        (callState plainDigest (State.new "b" "a" ["a", "b", "c", "d"]) shuffledRound 8) :=
  ⟨shuffledRound_voteRound, (voteRound_certified shuffledRound_voteRound).1⟩

end ChainLab.Pbft
