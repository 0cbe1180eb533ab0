import ChainLab.Pbft.Calls

/-!
# Slot locks and decisions

A pre-prepare locks its slot to a block hash.  The lock is what keeps a replica from voting for a
second block in the same view and sequence.  `callChange_call` says what each call can do to the
locks and to the commit certificates: a lock stays until the view moves on, a stable checkpoint
passes the slot, or `markDurableCommit` releases it.
-/

namespace ChainLab.Pbft

variable {hash : BlockCore → String} {s s' : State}

/-! ## Frame lemmas -/

lemma installNewView_viewID (msg : NewView) : (s.installNewView msg).viewID = msg.view := by
  unfold State.installNewView
  split <;> rfl

lemma installNewView_lowWatermark (msg : NewView) :
    (s.installNewView msg).lowWatermark = s.lowWatermark := by
  unfold State.installNewView
  split <;> rfl

lemma installNewView_stableCheckpoint (msg : NewView) :
    (s.installNewView msg).stableCheckpoint = s.stableCheckpoint := by
  unfold State.installNewView
  split <;> rfl

/-! ## What a call does to the locks -/

/-- The five ways a call can touch the view, the low watermark and the locks. -/
inductive LockChange (hash : BlockCore → String) (s : State) (c : Call) (s' : State) : Prop
  | kept (hslots : s'.prePrepareBySlot = s.prePrepareBySlot)
      (hblocks : s'.lockedBlocks = s.lockedBlocks) (hlow : s'.lowWatermark = s.lowWatermark)
      (hstable : s'.stableCheckpoint = s.stableCheckpoint) (hview : s.viewID ≤ s'.viewID)
  | locked (msg : PrePrepare) (hvalid : ValidPrePrepare hash s msg) (hs : s' = s.lockPrePrepare msg)
  | installed (hview : s.viewID < s'.viewID) (hlow : s'.lowWatermark = s.lowWatermark)
      (hstable : s'.stableCheckpoint = s.stableCheckpoint)
  | pruned (height : Nat) (hheight : s.stableCheckpoint.height < height)
      (hview : s'.viewID = s.viewID) (hlow : s'.lowWatermark = height)
      (hstable : s'.stableCheckpoint.height = height)
      (hslots : s'.prePrepareBySlot = s.prePrepareBySlot.retain fun slot _ =>
        !s.slotPruned height slot)
      (hblocks : s'.lockedBlocks = s.lockedBlocks.retain fun h _ => !s.hashReleased height h)
  | released (b : Block) (hcall : c = .markDurableCommit b) (hhash : b.blockHash ≠ "")
      (hview : s'.viewID = s.viewID) (hlow : s'.lowWatermark = s.lowWatermark)
      (hstable : s'.stableCheckpoint = s.stableCheckpoint)
      (hslots : s'.prePrepareBySlot = s.prePrepareBySlot.retain fun slot _ =>
        !s.slotReleased b.height slot)
      (hblocks : s'.lockedBlocks = s.lockedBlocks.retain fun h _ => !s.hashReleased b.height h)

/-- A call leaves the certificates alone, completes a commit quorum, or imports a certificate that
agrees with the record. -/
inductive DecisionChange (s : State) (c : Call) (s' : State) : Prop
  | kept (hcerts : s'.commitCertificates = s.commitCertificates)
  | decided (msg : Commit) (count : Nat) (b : Block) (cert : CommitCertificate)
      (hcall : c = .acceptCommit msg) (hok : s.acceptCommit msg = .ok (s', true, count, b))
      (hhash : cert.blockHash = msg.blockHash)
      (hcerts : s'.commitCertificates = s.commitCertificates.put msg.height cert)
  | imported (cert : CommitCertificate)
      (hagree : ∀ existing, s.commitCertificates.find cert.height = some existing →
        existing.blockHash = cert.blockHash)
      (hcerts : s'.commitCertificates = s.commitCertificates.put cert.height cert)

structure CallChange (hash : BlockCore → String) (s : State) (c : Call) (s' : State) : Prop where
  locks : LockChange hash s c s'
  decisions : DecisionChange s c s'

variable {c : Call}

lemma LockChange.only (h : LockChange hash s c s')
    (hcerts : s'.commitCertificates = s.commitCertificates) : CallChange hash s c s' :=
  ⟨h, .kept hcerts⟩

lemma DecisionChange.only (h : DecisionChange s c s')
    (hslots : s'.prePrepareBySlot = s.prePrepareBySlot) (hblks : s'.lockedBlocks = s.lockedBlocks)
    (hlow : s'.lowWatermark = s.lowWatermark) (hstable : s'.stableCheckpoint = s.stableCheckpoint)
    (hview : s.viewID ≤ s'.viewID) : CallChange hash s c s' :=
  ⟨.kept hslots hblks hlow hstable hview, h⟩

lemma callChange_refl : CallChange hash s c s :=
  DecisionChange.only (.kept rfl) rfl rfl rfl rfl le_rfl

lemma callChange_acceptNewView {msg : NewView} {b : Option Block}
    (h : s.acceptNewView hash msg = .ok (s', b)) : CallChange hash s c s' := by
  rcases (acceptNewView_ok h).2 with ⟨-, -, rfl⟩ | ⟨hview, -, rfl⟩
  · exact DecisionChange.only (.kept rfl) rfl rfl rfl rfl le_rfl
  refine LockChange.only (.installed (by simpa [installNewView_viewID] using hview)
    (installNewView_lowWatermark msg) (installNewView_stableCheckpoint msg)) ?_
  unfold State.installNewView
  split <;> rfl

lemma callChange_call (hash : BlockCore → String) (s : State) (c : Call) :
    CallChange hash s c (s.call hash c) := by
  cases c with
  | configureCheckpoint interval window =>
    exact DecisionChange.only (.kept rfl) rfl rfl rfl rfl le_rfl
  | onPrePrepare msg =>
    refine stateOr_induction callChange_refl fun t p hok => ?_
    obtain ⟨hval, rfl, -⟩ := onPrePrepare_eq_ok.1 hok
    exact LockChange.only (.locked msg hval rfl) rfl
  | acceptPrepare msg =>
    refine stateOr_induction callChange_refl fun t a hok => ?_
    obtain ⟨_, _, _, _, _, _, rfl⟩ := acceptPrepare_frame hok
    exact DecisionChange.only (.kept rfl) rfl rfl rfl rfl le_rfl
  | acceptCommit msg =>
    refine stateOr_induction callChange_refl ?_
    rintro t ⟨reached, count, b⟩ hok
    cases (acceptCommit_ok hok).2 with
    | buffered | counted => exact DecisionChange.only (.kept rfl) rfl rfl rfl rfl le_rfl
    | reached =>
      exact DecisionChange.only (.decided msg _ _ _ rfl hok rfl rfl) rfl rfl rfl rfl le_rfl
  | acceptCommitCertificate cert b =>
    refine stateOr_induction callChange_refl fun t a hok => ?_
    obtain ⟨s₁, hcert, heq⟩ := Result.map_eq_ok.1 hok
    cases heq
    obtain ⟨-, -, -, -, hagree, rfl⟩ := acceptCommitCertificate_ok hcert
    exact DecisionChange.only (.imported cert hagree rfl) rfl rfl rfl rfl le_rfl
  | buildViewChange newView height =>
    refine stateOr_induction callChange_refl fun t vc hok => ?_
    rw [(buildViewChange_ok hok).2.1]
    exact DecisionChange.only (.kept rfl) rfl rfl rfl rfl le_rfl
  | acceptViewChange msg =>
    refine stateOr_induction callChange_refl fun t a hok => ?_
    rcases (acceptViewChange_ok hok).2.2.2 with rfl | ⟨-, rfl⟩
    · exact callChange_refl
    · exact DecisionChange.only (.kept rfl) rfl rfl rfl rfl le_rfl
  | markViewChangeBroadcast newView =>
    simp only [State.call, State.markViewChangeBroadcast]
    split <;> exact DecisionChange.only (.kept rfl) rfl rfl rfl rfl le_rfl
  | acceptNewView msg =>
    exact stateOr_induction callChange_refl fun t b hok => callChange_acceptNewView hok
  | onNewView msg =>
    simp only [State.call, State.onNewView]
    split
    · split
      · rename_i hfwd
        exact DecisionChange.only (.kept rfl) rfl rfl rfl rfl hfwd.1.le
      · exact callChange_refl
    · split
      · exact callChange_acceptNewView ‹_›
      · exact callChange_refl
  | markDurableCommit b =>
    simp only [State.call, State.markDurableCommit]
    split
    · exact callChange_refl
    · rename_i hb
      exact LockChange.only (.released b rfl (fun h => hb (Or.inl h)) rfl rfl rfl rfl rfl) rfl
  | acceptCheckpoint msg =>
    refine stateOr_induction callChange_refl fun t a hok => ?_
    rcases acceptCheckpoint_ok hok with rfl | ⟨cp, hcp, hht, -, rfl⟩
    · exact DecisionChange.only (.kept rfl) rfl rfl rfl rfl le_rfl
    · exact LockChange.only (.pruned msg.height hht rfl rfl hcp rfl rfl) rfl

end ChainLab.Pbft
