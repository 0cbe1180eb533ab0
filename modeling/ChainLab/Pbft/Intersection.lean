import ChainLab.Data.Quorum
import ChainLab.Pbft.Spec

/-!
# Certificates of one slot

Two certificates that replicas with one set of validators accept were voted for by more common
validators than may be faulty.  When they certify different blocks in one slot, all of these voted
for both.
-/

namespace ChainLab.Pbft

open List

/-- What a vote of either phase says: who votes, in which slot, for which block. -/
structure SlotVote where
  nodeID : String
  view : Nat
  sequence : Nat
  blockHash : String
deriving DecidableEq

/-- A certificate of either phase. -/
structure Certificate where
  view : Nat
  sequence : Nat
  blockHash : String
  votes : List SlotVote

def PreparedCertificate.certificate (cert : PreparedCertificate) : Certificate where
  view := cert.view
  sequence := cert.sequence
  blockHash := cert.blockHash
  votes := cert.prepares.map fun vote => ⟨vote.nodeID, vote.view, vote.sequence, vote.blockHash⟩

def CommitCertificate.certificate (cert : CommitCertificate) : Certificate where
  view := cert.view
  sequence := cert.sequence
  blockHash := cert.blockHash
  votes := cert.commits.map fun vote => ⟨vote.nodeID, vote.view, vote.sequence, vote.blockHash⟩

/-- The certificates that a replica accepts. -/
inductive Accepted (s : State) : Certificate → Prop where
  | prepared {cert : PreparedCertificate} :
      s.validatePreparedCertificate cert = .ok () → Accepted s cert.certificate
  | commit {cert : CommitCertificate} :
      s.validateCommitCertificate cert = .ok () → Accepted s cert.certificate

namespace Certificate

def voters (c : Certificate) : Finset String :=
  (c.votes.map SlotVote.nodeID).toFinset

/-- The nodes with a vote in each certificate, in one slot and for different blocks. -/
def equivocators (c d : Certificate) : Finset String :=
  (c.voters ∩ d.voters).filter fun node =>
    ∃ vote ∈ c.votes, ∃ vote' ∈ d.votes, vote.nodeID = node ∧ vote'.nodeID = node ∧
      vote.view = vote'.view ∧ vote.sequence = vote'.sequence ∧ vote.blockHash ≠ vote'.blockHash

/-- What validation checks of the votes. -/
structure Valid (s : State) (c : Certificate) : Prop where
  quorum_le : quorum s.validatorSet.length ≤ c.votes.length
  nodup : (c.votes.map SlotVote.nodeID).Nodup
  validator : ∀ vote ∈ c.votes, s.isValidator vote.nodeID = true
  agrees : ∀ vote ∈ c.votes, vote.view = c.view ∧ vote.sequence = c.sequence ∧
    vote.blockHash = c.blockHash

variable {s t : State} {c d : Certificate}

lemma valid_of_accepted (h : Accepted s c) : c.Valid s := by
  cases h with
  | prepared h =>
    have hvalid := validatePreparedCertificate_ok h
    constructor
    · simpa [PreparedCertificate.certificate, State.prepareQuorum] using hvalid.quorum_le
    · simpa [PreparedCertificate.certificate, Function.comp_def] using hvalid.nodup
    · simpa [PreparedCertificate.certificate] using hvalid.validator
    · simp only [PreparedCertificate.certificate, forall_mem_map]
      intro vote hvote
      obtain ⟨hview, hseq, -, hhash⟩ := hvalid.agrees vote hvote
      exact ⟨hview, hseq, hhash⟩
  | commit h =>
    have hvalid := validateCommitCertificate_ok h
    constructor
    · simpa [CommitCertificate.certificate, State.commitQuorum] using hvalid.quorum_le
    · simpa [CommitCertificate.certificate, Function.comp_def] using hvalid.nodup
    · simpa [CommitCertificate.certificate] using hvalid.validator
    · simp only [CommitCertificate.certificate, forall_mem_map]
      intro vote hvote
      obtain ⟨hview, hseq, -, hhash⟩ := hvalid.agrees vote hvote
      exact ⟨hview, hseq, hhash⟩

namespace Valid

variable (hc : c.Valid s) (hd : d.Valid t)

include hc

lemma voters_subset : c.voters ⊆ s.validatorSet.toFinset := by
  intro node hnode
  obtain ⟨vote, hvote, rfl⟩ := mem_map.1 (mem_toFinset.1 hnode)
  have hval := hc.validator vote hvote
  simp only [State.isValidator, Bool.and_eq_true, contains_iff_mem] at hval
  exact mem_toFinset.2 hval.2

lemma quorum_le_card : quorum s.validatorSet.length ≤ c.voters.card := by
  rw [voters, toFinset_card_of_nodup hc.nodup, length_map]
  exact hc.quorum_le

include hd

lemma common_voters (hset : t.validatorSet = s.validatorSet) (hnodup : s.validatorSet.Nodup)
    (hpos : 0 < s.validatorSet.length) :
    faultTolerance s.validatorSet.length < (c.voters ∩ d.voters).card := by
  -- two quorums among the same validators
  have hcount := Quorum.card_add_card_le hc.voters_subset (hset ▸ hd.voters_subset)
  rw [toFinset_card_of_nodup hnodup] at hcount
  have hquorum := hc.quorum_le_card
  have hquorum' := hset ▸ hd.quorum_le_card
  have harith := faultTolerance_lt_two_mul_quorum_sub hpos
  omega

/-- In one slot, whoever voted in both certificates voted for both blocks. -/
lemma equivocators_eq (hview : d.view = c.view) (hseq : d.sequence = c.sequence)
    (hne : c.blockHash ≠ d.blockHash) : equivocators c d = c.voters ∩ d.voters := by
  refine Finset.filter_true_of_mem ?_
  intro node hnode
  obtain ⟨hnode, hnode'⟩ := Finset.mem_inter.1 hnode
  obtain ⟨vote, hvote, hid⟩ := mem_map.1 (mem_toFinset.1 hnode)
  obtain ⟨vote', hvote', hid'⟩ := mem_map.1 (mem_toFinset.1 hnode')
  obtain ⟨hv, hs, hh⟩ := hc.agrees vote hvote
  obtain ⟨hv', hs', hh'⟩ := hd.agrees vote' hvote'
  exact ⟨vote, hvote, vote', hvote', hid, hid', by rw [hv, hv', hview], by rw [hs, hs', hseq],
    by rwa [hh, hh']⟩

end Valid

end Certificate

lemma quorum_le_sub_faultTolerance {n : Nat} (h : 0 < n) : quorum n ≤ n - faultTolerance n := by
  unfold quorum faultTolerance
  split <;> omega

/-- Two certificates of one view and sequence that replicas with the same distinct validators accept
share more of them than may be faulty, the validators that are not faulty make a quorum, and with
different blocks all common voters equivocate. -/
theorem certificates_intersect {validators : List String} (hnodup : validators.Nodup)
    (hpos : 1 ≤ validators.length) {s t : State} (hs : s.validatorSet = validators)
    (ht : t.validatorSet = validators) {c d : Certificate} (hc : Accepted s c) (hd : Accepted t d)
    (hview : d.view = c.view) (hseq : d.sequence = c.sequence) :
    (c.voters ∩ d.voters ⊆ validators.toFinset ∧
      faultTolerance validators.length + 1 ≤ (c.voters ∩ d.voters).card) ∧
    quorum validators.length ≤ validators.length - faultTolerance validators.length ∧
    (c.blockHash ≠ d.blockHash → Certificate.equivocators c d ⊆ validators.toFinset ∧
        faultTolerance validators.length < (Certificate.equivocators c d).card) := by
  subst hs
  have hvalid := Certificate.valid_of_accepted hc
  have hvalid' := Certificate.valid_of_accepted hd
  have hcommon := hvalid.common_voters hvalid' ht hnodup hpos
  have hsub : c.voters ∩ d.voters ⊆ s.validatorSet.toFinset :=
    Finset.inter_subset_left.trans hvalid.voters_subset
  refine ⟨⟨hsub, hcommon⟩, quorum_le_sub_faultTolerance hpos, ?_⟩
  intro hne
  rw [hvalid.equivocators_eq hvalid' hview hseq hne]
  exact ⟨hsub, hcommon⟩

/-- A prepared certificate in the slot of view zero and sequence one. -/
def slotCertificate (blockHash : String) (nodes : List String) : PreparedCertificate where
  view := 0
  sequence := 1
  height := 1
  blockHash := blockHash
  prepares := nodes.map fun node => ⟨0, 1, 1, node, blockHash⟩

theorem certificates_intersect_four :
    faultTolerance 4 < (Certificate.equivocators (slotCertificate "x" ["a", "b", "c"]).certificate
      (slotCertificate "y" ["b", "c", "d"]).certificate).card :=
  ((certificates_intersect (show ["a", "b", "c", "d"].Nodup by decide) (by decide)
    (s := State.new "a" "a" ["a", "b", "c", "d"]) (t := State.new "b" "a" ["d", "c", "b", "a"])
    (by decide) (by decide) (c := (slotCertificate "x" ["a", "b", "c"]).certificate)
    (d := (slotCertificate "y" ["b", "c", "d"]).certificate)
    (.prepared (by decide)) (.prepared (by decide)) rfl rfl).2.2 (by decide)).2

end ChainLab.Pbft
