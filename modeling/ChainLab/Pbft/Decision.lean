import ChainLab.Block.Digest
import ChainLab.Pbft.Locks

/-!
# Commit decisions of one replica

`commitCertificates` records, per height, the block a replica has decided.  Two calls write it:
AcceptCommitCertificate refuses a certificate for another block than the recorded one, AcceptCommit
does not look.  Decisions are immutable in the runs where AcceptCommit is not called for the block
that is prepared at a height when another one is recorded there.
-/

namespace ChainLab.Pbft

section Runs

variable (hash : BlockCore → String) (start : State) (calls : List Call)

/-- Once a height has a certificate, later certificates of the height name the same block. -/
def DecisionsImmutable : Prop :=
  ∀ i j h cert cert', i ≤ j → (callState hash start calls i).commitCertificates.find h = some cert →
    (callState hash start calls j).commitCertificates.find h = some cert' →
    cert'.blockHash = cert.blockHash

/-- Whenever AcceptCommit is called with a commit of the current view for the block prepared at its
height, a certificate that is recorded for the height names this block. -/
def CommitsMeetRecord : Prop :=
  ∀ i msg prepared cert, calls[i]? = some (.acceptCommit msg) →
    msg.view = (callState hash start calls i).viewID →
    (callState hash start calls i).preparedByHeight.find msg.height = some prepared →
    prepared.blockHash = msg.blockHash →
    (callState hash start calls i).commitCertificates.find msg.height = some cert →
    cert.blockHash = msg.blockHash

end Runs

variable {hash : BlockCore → String} {start s s' : State} {calls : List Call}

/-- The height has a certificate, and it names the block `blockHash`. -/
def Decided (h : Nat) (blockHash : String) (s : State) : Prop :=
  ∃ cert, s.commitCertificates.find h = some cert ∧ cert.blockHash = blockHash

lemma prepared_of_decided {msg : Commit} {count : Nat} {b : Block}
    (hok : s.acceptCommit msg = .ok (s', true, count, b)) : msg.view = s.viewID ∧
      ∃ prepared, s.preparedByHeight.find msg.height = some prepared ∧
        prepared.blockHash = msg.blockHash := by
  obtain ⟨hadmits, hout⟩ := acceptCommit_ok hok
  cases hout with
  | reached _ _ _ hprepared => exact ⟨hadmits.view_eq, hprepared⟩

lemma decided_call {h : Nat} {blockHash : String} {c : Call}
    (hmeet : ∀ msg prepared cert, c = .acceptCommit msg → msg.view = s.viewID →
      s.preparedByHeight.find msg.height = some prepared → prepared.blockHash = msg.blockHash →
      s.commitCertificates.find msg.height = some cert → cert.blockHash = msg.blockHash)
    (hdec : Decided h blockHash s) : Decided h blockHash (s.call hash c) := by
  obtain ⟨cert, hfind, hhash⟩ := hdec
  rcases (callChange_call hash s c).decisions with
    ⟨hcerts⟩ | ⟨msg, count, b, new, hcall, hok, hnew, hcerts⟩ | ⟨new, hnew, hcerts⟩
  · exact ⟨cert, by rw [hcerts, hfind], hhash⟩
  · by_cases hht : h = msg.height
    · subst hht
      obtain ⟨hview, prepared, hprep, hblock⟩ := prepared_of_decided hok
      have hsame := hmeet msg prepared cert hcall hview hprep hblock hfind
      exact ⟨new, by simp [hcerts], by rw [hnew, ← hsame, hhash]⟩
    · exact ⟨cert, by simp [hcerts, GoMap.find_put, hht, hfind], hhash⟩
  · by_cases hht : h = new.height
    · subst hht
      exact ⟨new, by simp [hcerts], by rw [← hnew cert hfind, hhash]⟩
    · exact ⟨cert, by simp [hcerts, GoMap.find_put, hht, hfind], hhash⟩

/-- Decisions are immutable when no commit for the prepared block of a height contradicts the
record. -/
theorem decisionsImmutable_of_commitsMeetRecord (hash : BlockCore → String) (start : State)
    (calls : List Call) (hmeet : CommitsMeetRecord hash start calls) :
    DecisionsImmutable hash start calls := by
  intro i j h cert cert' hij hfind hfind'
  obtain ⟨last, hlast, hhash⟩ : Decided h cert.blockHash (callState hash start calls j) := by
    refine Run.stretch_induction hij ⟨cert, hfind, rfl⟩ ?_
    intro k c _ _ hc hk
    refine decided_call ?_ hk
    rintro msg prepared cert rfl hview hprep hblock hrecord
    exact hmeet k msg prepared cert hc hview hprep hblock hrecord
  cases hlast.symm.trans hfind'
  exact hhash

/-! ## A replica that decides twice -/

/-- The calls of one round: a proposal, the votes of `a`, `b`, `c` for it, and their commits. -/
def roundCalls (view : Nat) (leader : String) (b : Block) : List Call :=
  .onPrePrepare (.ofBlock view leader b) ::
    (["a", "b", "c"].map (fun node => Call.acceptPrepare (.ofBlock view node b)) ++
      ["a", "b", "c"].map fun node => Call.acceptCommit (.ofBlock view node b))

/-- Three replicas commit to a block, and the fourth commits to it when it is decided already. -/
def oneRound : List Call :=
  roundCalls 0 "a" (plainBlock 1 "a") ++ [.acceptCommit (.ofBlock 0 "d" (plainBlock 1 "a"))]

lemma commitsMeetRecord_oneRound :
    CommitsMeetRecord plainDigest (State.new "c" "a" ["a", "b", "c", "d"]) oneRound := by
  intro i msg prepared cert hi _ _ _ hcert
  have hcommits : ∀ c ∈ oneRound, ∀ msg, c = .acceptCommit msg →
      msg.height = 1 ∧ msg.blockHash = (plainBlock 1 "a").blockHash := by
    simp [oneRound, roundCalls, Commit.ofBlock, plainBlock, Block.assignHash]
  have hrecord : ∀ i < 8, ∀ cert ∈ (callState plainDigest (State.new "c" "a" ["a", "b", "c", "d"])
      oneRound i).commitCertificates.find 1, cert.blockHash = (plainBlock 1 "a").blockHash := by
    decide +kernel
  obtain ⟨hht, hhash⟩ := hcommits _ (List.mem_of_getElem? hi) msg rfl
  rw [hhash]
  exact hrecord i (List.getElem?_eq_some_iff.1 hi).1 cert (hht ▸ hcert)

theorem decisionsImmutable_oneRound :
    DecisionsImmutable plainDigest (State.new "c" "a" ["a", "b", "c", "d"]) oneRound :=
  decisionsImmutable_of_commitsMeetRecord plainDigest _ oneRound commitsMeetRecord_oneRound

/-- The NEW-VIEW for view one from replicas that report nothing prepared. -/
def emptyNewView : NewView where
  view := 1
  leaderID := "b"
  height := 1
  viewChanges := ["a", "b", "c"].map fun node =>
    { view := 0, newView := 1, nodeID := node, height := 1, leaderID := "b",
      stableCheckpoint := none, prepared := none, preparedBlock := none }
  selectedPrepared := none
  selectedBlock := none

/-- A block decided in view zero, a new view that carries nothing over, another block at the same
height in view one. -/
def redecidingRun : List Call :=
  roundCalls 0 "a" (plainBlock 1 "a") ++ .acceptNewView emptyNewView ::
    roundCalls 1 "b" (plainBlock 1 "b")

/-- AcceptCommit of view one overwrites the certificate of view zero. -/
theorem decision_overwritten_by_acceptCommit :
    ¬ DecisionsImmutable plainDigest (State.new "c" "a" ["a", "b", "c", "d"]) redecidingRun := by
  intro himm
  have hfirst : ((callState plainDigest (State.new "c" "a" ["a", "b", "c", "d"]) redecidingRun
      7).commitCertificates.find 1).map CommitCertificate.blockHash =
        some (plainBlock 1 "a").blockHash := by
    decide
  have hlast : ((callState plainDigest (State.new "c" "a" ["a", "b", "c", "d"]) redecidingRun
      15).commitCertificates.find 1).map CommitCertificate.blockHash =
        some (plainBlock 1 "b").blockHash := by
    decide
  obtain ⟨cert, hcert, hhash⟩ := Option.map_eq_some_iff.1 hfirst
  obtain ⟨cert', hcert', hhash'⟩ := Option.map_eq_some_iff.1 hlast
  have hsame := himm 7 15 1 cert cert' (by decide) hcert hcert'
  rw [hhash, hhash'] at hsame
  exact absurd hsame (by decide)

end ChainLab.Pbft
