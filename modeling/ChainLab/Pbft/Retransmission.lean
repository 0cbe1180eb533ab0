import ChainLab.Block.Digest
import ChainLab.Pbft.Calls
import ChainLab.Pbft.World

/-!
# Retransmitted view changes

`rebroadcastCurrentPBFTViewChange` builds the VIEW-CHANGE again from the present evidence, and a
replica that has the first one compares the two field by field.  They agree as long as the replica,
between the two, completes no other prepared certificate up to the reported height, makes no
prepared block durable, moves to no later view and gets no new stable checkpoint.
-/

namespace ChainLab.Pbft

open Result

/-- What a VIEW-CHANGE is compared by, of the certificate it carries. -/
def PreparedCertificate.identity (cert : PreparedCertificate) : Nat × Nat × Nat × String :=
  (cert.view, cert.sequence, cert.height, cert.blockHash)

/-- Every certificate is kept under its height and names a block. -/
def KeyedCertificates (s : State) : Prop :=
  ∀ height cert, s.preparedByHeight.find height = some cert → cert.height = height ∧
    cert.blockHash ≠ ""

section

variable {hash : BlockCore → String} {s s' : State} {height : Nat}

lemma KeyedCertificates.step (h : KeyedCertificates s) (hstep : Stepped hash s s') :
    KeyedCertificates s' := by
  cases hstep with
  | kept | configured | locked | built | moved => exact h
  | prepare hok =>
    cases (acceptPrepare_ok hok).2 with
    | buffered | counted => exact h
    | reached _ hne =>
      rcases storePrepared_cases (s.recordPrepare _) _ with ⟨_, hs⟩ | ⟨_, -, -, hs⟩
      · rw [hs]
        intro k cert hfind
        rw [GoMap.find_put] at hfind
        split at hfind
        · rename_i hk
          cases hfind
          exact ⟨hk.symm, hne⟩
        · exact h k cert hfind
      · rw [hs]
        exact h
  | commit hok =>
    obtain ⟨_, _, _, _, _, _, rfl⟩ := acceptCommit_frame hok
    exact h
  | certificate hok =>
    obtain ⟨-, -, -, -, -, rfl⟩ := acceptCommitCertificate_ok hok
    exact h
  | viewChange hok => rcases (acceptViewChange_ok hok).2.2.2 with rfl | ⟨-, rfl⟩ <;> exact h
  | marked newView =>
    unfold State.markViewChangeBroadcast
    split <;> exact h
  | newView hok =>
    obtain ⟨hvalid, ⟨-, -, rfl⟩ | ⟨-, -, rfl⟩⟩ := acceptNewView_ok hok
    · exact h
    unfold State.installNewView
    rcases hvalid.selected with ⟨hcert, hblk, -⟩ | ⟨_, cert, b, -, hne, hcert, hblk, -, -, -,
        hhash, -⟩
    · rw [hcert, hblk]
      intro k cert hfind
      cases hfind
    · rw [hcert, hblk]
      intro k cert' hfind
      rw [GoMap.find_put] at hfind
      split at hfind
      · rename_i hk
        cases hfind
        exact ⟨hk.symm, hhash ▸ hne⟩
      · cases hfind
  | durable b =>
    unfold State.markDurableCommit
    split
    · exact h
    intro k cert hfind
    rw [GoMap.find_delete] at hfind
    split at hfind
    · cases hfind
    · exact h k cert hfind
  | checkpoint hok =>
    rcases acceptCheckpoint_ok hok with rfl | ⟨_, -, -, -, rfl⟩
    · exact h
    · exact fun k cert hfind => h k cert (GoMap.find_retain_eq_some.1 hfind).1

/-! ## Reports -/

/-- Up to `height`, the two states report the same. -/
structure SameReport (height : Nat) (s s' : State) : Prop where
  view : s'.viewID = s.viewID
  stable : s'.stableCheckpoint = s.stableCheckpoint
  prepared : ∀ k ≤ height, (s'.preparedByHeight.find k).map PreparedCertificate.identity =
    (s.preparedByHeight.find k).map PreparedCertificate.identity
  blocks : ∀ k ≤ height, s.preparedByHeight.find k ≠ none →
    (s'.preparedBlocks.get k).blockHash = (s.preparedBlocks.get k).blockHash

lemma SameReport.refl (height : Nat) (s : State) : SameReport height s s :=
  ⟨rfl, rfl, fun _ _ => rfl, fun _ _ _ => rfl⟩

lemma SameReport.of_eq (hview : s'.viewID = s.viewID)
    (hstable : s'.stableCheckpoint = s.stableCheckpoint)
    (hprep : s'.preparedByHeight = s.preparedByHeight)
    (hblocks : s'.preparedBlocks = s.preparedBlocks) :
    SameReport height s s' :=
  ⟨hview, hstable, by simp [hprep], by simp [hblocks]⟩

lemma SameReport.trans {s'' : State} (h : SameReport height s s') (h' : SameReport height s' s'') :
    SameReport height s s'' := by
  refine ⟨h'.view.trans h.view, h'.stable.trans h.stable,
    fun k hk => (h'.prepared k hk).trans (h.prepared k hk), fun k hk hne => ?_⟩
  refine (h'.blocks k hk fun hnone => hne ?_).trans (h.blocks k hk hne)
  simpa [hnone] using (h.prepared k hk).symm

/-- The certificate kept for a height and reported by `s` is above that of `s'`. -/
lemma SameReport.le_highest (h : SameReport height s s') (hkeyed' : KeyedCertificates s') {k : Nat}
    {cert : PreparedCertificate} (hk : k ≤ height) (hfind : s.preparedByHeight.find k = some cert) :
    (s'.highestPrepared height).1.blockHash ≠ "" ∧
      (cert.view < (s'.highestPrepared height).1.view ∨
        cert.view = (s'.highestPrepared height).1.view ∧
          cert.height ≤ (s'.highestPrepared height).1.height) := by
  have hid := h.prepared k hk
  rw [hfind] at hid
  obtain ⟨cert', hfind', heq⟩ := Option.map_eq_some_iff.1 hid
  simp only [PreparedCertificate.identity, Prod.mk.injEq] at heq
  have := (highestPrepared_spec (fun e he => (hkeyed' _ _ (GoMap.find_of_mem_entries he)).2)
    height).2 _
    (GoMap.find_eq_some_iff.1 hfind') hk
  rwa [heq.1, heq.2.2.1] at this

lemma SameReport.symm (h : SameReport height s s') : SameReport height s' s := by
  refine ⟨h.view.symm, h.stable.symm, fun k hk => (h.prepared k hk).symm, fun k hk hne => ?_⟩
  refine (h.blocks k hk fun hnone => hne ?_).symm
  simpa [hnone] using h.prepared k hk

/-- Where two states report the same, they choose the same certificate and block. -/
lemma SameReport.highestPrepared (h : SameReport height s s') (hkeyed : KeyedCertificates s)
    (hkeyed' : KeyedCertificates s') : ((s.highestPrepared height).1.blockHash = "" ∧
        (s'.highestPrepared height).1.blockHash = "") ∨
      (s'.highestPrepared height).1.identity = (s.highestPrepared height).1.identity ∧
        (s'.highestPrepared height).2.blockHash = (s.highestPrepared height).2.blockHash := by
  have hspec : ∀ {t : State}, KeyedCertificates t → _ := fun ht => highestPrepared_spec
    (fun e he => (ht _ _ (GoMap.find_of_mem_entries he)).2) height
  by_cases hne : (s.highestPrepared height).1.blockHash = ""
  · refine .inl ⟨hne, not_not.1 fun hne' => ?_⟩
    obtain ⟨e, he, hht, -⟩ := (hspec hkeyed').1 hne'
    exact (h.symm.le_highest hkeyed hht (GoMap.find_of_mem_entries he)).1 hne
  right
  obtain ⟨⟨k, cert⟩, he, hk, hchosen⟩ := (hspec hkeyed).1 hne
  have hfind := GoMap.find_of_mem_entries he
  obtain ⟨hne', hle⟩ := h.le_highest hkeyed' hk hfind
  obtain ⟨⟨k', cert'⟩, he', hk', hchosen'⟩ := (hspec hkeyed').1 hne'
  have hfind' := GoMap.find_of_mem_entries he'
  obtain ⟨-, hle'⟩ := h.symm.le_highest hkeyed hk' hfind'
  -- each is above the other, and there is one certificate for a height
  obtain rfl : k' = k := by
    have hkey := (hkeyed _ _ hfind).1
    have hkey' := (hkeyed' _ _ hfind').1
    rw [hchosen'] at hle
    rw [hchosen] at hle'
    simp only at hle hle' hkey hkey'
    omega
  have hid := h.prepared _ hk
  simp only [hfind, hfind', Option.map_some, Option.some.injEq] at hid
  exact ⟨by rw [hchosen, hchosen']; exact hid,
    by rw [hchosen, hchosen']; exact h.blocks _ hk (by simp [hfind])⟩

lemma SameReport.sameViewChange {s₁ s₂ : State} {newView : Nat} {first vc : ViewChange}
    (h : SameReport height s s') (hkeyed : KeyedCertificates s) (hkeyed' : KeyedCertificates s')
    (hsame : SameReplica s s') (hfirst : s.buildViewChange newView height = .ok (s₁, first))
    (hvc : s'.buildViewChange newView height = .ok (s₂, vc)) : sameViewChange first vc = true := by
  simp only [State.buildViewChange, require_bind_eq_ok] at hfirst hvc
  obtain ⟨-, hfirst⟩ := hfirst
  obtain ⟨-, hvc⟩ := hvc
  cases hfirst
  cases hvc
  rcases h.highestPrepared hkeyed hkeyed' with ⟨hnone, hnone'⟩ | ⟨hid, hblock⟩
  · simp [Pbft.sameViewChange, hnone, hnone', h.view, h.stable, hsame.nodeID, hsame.leaderForView]
  simp only [PreparedCertificate.identity, Prod.mk.injEq] at hid
  obtain ⟨hview, hseq, hht, hhash⟩ := hid
  simp only [Pbft.sameViewChange, h.view, h.stable, hsame.nodeID, hsame.leaderForView, hhash,
    hblock,
    apply_ite (Option.map _), Option.map_some, Option.map_none, hview, hseq, hht, decide_true,
    Bool.and_self]

/-! ## What keeps a report -/

end

/-- The error with which a node refuses a VIEW-CHANGE. -/
def Entry.refused : Entry → Option String
  | ⟨.voteViewChange _, .error e⟩ | ⟨.acceptViewChange _, .error e⟩ => some e
  | _ => none

end ChainLab.Pbft
