import Mathlib.Data.Finset.Card

/-!
# Quorum intersection

Counting facts about two sets of voters taken from one finite set.
-/

namespace ChainLab.Quorum

variable {R : Type} [DecidableEq R] {all s t faulty : Finset R}

lemma card_add_card_le (hs : s ⊆ all) (ht : t ⊆ all) :
    s.card + t.card ≤ all.card + (s ∩ t).card := by
  have hunion : (s ∪ t).card ≤ all.card := Finset.card_le_card (Finset.union_subset hs ht)
  have hcount := Finset.card_union_add_card_inter s t
  omega

/-- Two sets that together outnumber all voters and the faulty ones share a voter that is not
faulty. -/
lemma exists_common_correct (hs : s ⊆ all) (ht : t ⊆ all)
    (h : all.card + faulty.card < s.card + t.card) : ∃ r, r ∈ s ∧ r ∈ t ∧ r ∉ faulty := by
  have hcount := card_add_card_le hs ht
  have hlt : faulty.card < (s ∩ t).card := by omega
  obtain ⟨r, hr, hcorr⟩ := Finset.exists_mem_notMem_of_card_lt_card hlt
  exact ⟨r, Finset.mem_of_mem_inter_left hr, Finset.mem_of_mem_inter_right hr, hcorr⟩

end ChainLab.Quorum
