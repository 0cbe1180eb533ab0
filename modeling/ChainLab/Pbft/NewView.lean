import ChainLab.Block.Digest
import ChainLab.Pbft.Calls

/-!
# A NEW-VIEW is accepted by every replica

`BuildNewView` and `validateNewViewLocked` select the highest prepared certificate in loops of their
own.  Along every run of a replica its table of view changes holds only messages it has accepted,
and what one replica accepts passes the checks of every replica with the same validators.
-/

namespace ChainLab.Pbft

open List Result

variable {hash : BlockCore → String} {s s' : State}

/-! ## Checks that depend on the validators only -/

/-- The same validators and the same first leader. -/
structure SameCommittee (s s' : State) : Prop where
  validatorSet : s'.validatorSet = s.validatorSet
  initialLeaderID : s'.initialLeaderID = s.initialLeaderID

/-- A VIEW-CHANGE for `newView` that the replica lets through, whatever its own view is. -/
structure AdmitsChange (hash : BlockCore → String) (s : State) (newView : Nat) (vc : ViewChange) :
    Prop where
  validator : s.isValidator vc.nodeID = true
  newView_eq : vc.newView = newView
  leader_eq : vc.leaderID = s.leaderForView newView
  evidence : ∀ kind, s.validateEvidence hash kind vc = .ok ()

variable {vc : ViewChange}

lemma validateEvidence_kind {kind : String}
    (h : s.validateEvidence hash kind vc = .ok ()) (kind' : String) :
    s.validateEvidence hash kind' vc = .ok () := by
  unfold State.validateEvidence at h ⊢
  obtain ⟨_, hcheckpoint, h⟩ := bind_eq_ok.1 h
  refine bind_eq_ok.2 ⟨_, hcheckpoint, ?_⟩
  cases hprep : vc.prepared with
  | none => rfl
  | some cert =>
    rw [hprep] at h
    obtain ⟨_, hvalid, h⟩ := bind_eq_ok.1 h
    exact bind_eq_ok.2 ⟨_, hvalid, require_eq_ok.2 (require_eq_ok.1 h)⟩

namespace SameCommittee

section

variable (h : SameCommittee s s')

include h

lemma leaderForView (view : Nat) : s'.leaderForView view = s.leaderForView view := by
  simp only [State.leaderForView, h.validatorSet, h.initialLeaderID]

lemma isValidator (nodeID : String) : s'.isValidator nodeID = s.isValidator nodeID := by
  simp only [State.isValidator, h.validatorSet]

lemma checkCertificateVotes {α : Type} (kind : String)
    (nodeID : α → String) (agrees : α → Bool) (seen : List String) (votes : List α) :
    s'.checkCertificateVotes kind nodeID agrees seen votes =
      s.checkCertificateVotes kind nodeID agrees seen votes := by
  induction votes generalizing seen with
  | nil => rfl
  | cons vote votes ih => simp only [State.checkCertificateVotes, h.isValidator, ih]

lemma validateEvidence (kind : String) (vc : ViewChange) :
    s'.validateEvidence hash kind vc = s.validateEvidence hash kind vc := by
  have hcheckpoint : s'.validateCheckpointCertificate = s.validateCheckpointCertificate := by
    funext cert
    rw [State.validateCheckpointCertificate, State.commitQuorum, h.validatorSet,
      h.checkCertificateVotes]
    rfl
  have hprep : s'.validatePreparedCertificate = s.validatePreparedCertificate := by
    funext cert
    rw [State.validatePreparedCertificate, State.prepareQuorum, h.validatorSet,
      h.checkCertificateVotes]
    rfl
  simp only [State.validateEvidence, hcheckpoint, hprep]

lemma admitsChange {newView : Nat}
    (hvc : AdmitsChange hash s newView vc) : AdmitsChange hash s' newView vc where
  validator := by rw [h.isValidator, hvc.validator]
  newView_eq := hvc.newView_eq
  leader_eq := by rw [h.leaderForView, hvc.leader_eq]
  evidence kind := by rw [h.validateEvidence, hvc.evidence]

end

end SameCommittee

/-! ## The table of view changes -/

/-- Every vote of the table is one that the replica admits, under the name of its sender. -/
def AdmittedVotes (hash : BlockCore → String) (s : State) : Prop :=
  ∀ newView id vc, (s.viewChangeVotes.get newView).find id = some vc →
    vc.nodeID = id ∧ AdmitsChange hash s newView vc

lemma acceptViewChange_votes {msg : ViewChange} {reached : Bool} {count newView : Nat} {id : String}
    (hok : s.acceptViewChange hash msg = .ok (s', reached, count))
    (hvc : (s'.viewChangeVotes.get newView).find id = some vc) :
    (s.viewChangeVotes.get newView).find id = some vc ∨
      vc.nodeID = id ∧ AdmitsChange hash s newView vc := by
  rcases (acceptViewChange_ok hok).2.2.2 with rfl | ⟨-, rfl⟩
  · exact .inl hvc
  unfold State.acceptViewChange at hok
  simp only [require_bind_eq_ok] at hok
  obtain ⟨hval, -, hlead, hok⟩ := hok
  obtain ⟨_, hevid, -⟩ := bind_eq_ok.1 hok
  obtain ⟨hview, hid, rfl⟩ | hold := GoMap.of_find_putIn hvc
  · exact .inr ⟨hid.symm, hval, hview.symm, hview ▸ hlead, validateEvidence_kind hevid⟩
  · exact .inl hold

/-- A vote of the table was there before the step, or has just been admitted. -/
lemma Stepped.viewChangeVotes {newView : Nat} {id : String}
    (hstep : Stepped hash s s') (hvc : (s'.viewChangeVotes.get newView).find id = some vc) :
    (s.viewChangeVotes.get newView).find id = some vc ∨
      vc.nodeID = id ∧ AdmitsChange hash s newView vc := by
  cases hstep with
  | kept | configured | locked | built | moved => exact .inl hvc
  | prepare hok =>
    obtain ⟨_, _, _, _, _, _, rfl⟩ := acceptPrepare_frame hok
    exact .inl hvc
  | commit hok =>
    obtain ⟨_, _, _, _, _, _, rfl⟩ := acceptCommit_frame hok
    exact .inl hvc
  | certificate hok =>
    obtain ⟨-, -, -, -, -, rfl⟩ := acceptCommitCertificate_ok hok
    exact .inl hvc
  | viewChange hok => exact acceptViewChange_votes hok hvc
  | marked _ =>
    unfold State.markViewChangeBroadcast at hvc
    split at hvc <;> exact .inl hvc
  | newView hok =>
    rcases (acceptNewView_ok hok).2 with ⟨-, -, rfl⟩ | ⟨-, -, rfl⟩
    · exact .inl hvc
    · unfold State.installNewView at hvc
      split at hvc <;> exact .inl (GoMap.find_get_retain hvc).1
  | durable b =>
    unfold State.markDurableCommit at hvc
    split at hvc <;> exact .inl hvc
  | checkpoint hok =>
    rcases acceptCheckpoint_ok hok with rfl | ⟨_, -, -, -, rfl⟩
    · exact .inl hvc
    · exact .inl (GoMap.find_get_retain hvc).1

lemma AdmittedVotes.step (h : AdmittedVotes hash s) (hstep : Stepped hash s s') :
    AdmittedVotes hash s' := by
  intro newView id vc hvc
  have hsame : SameCommittee s s' :=
    ⟨hstep.sameReplica.validatorSet, hstep.sameReplica.initialLeaderID⟩
  exact ((hstep.viewChangeVotes hvc).elim (h newView id vc) fun hnew => hnew).imp_right
    hsame.admitsChange

/-! ## The two loops -/

/-- Over admitted view changes of different senders the check loop only selects. -/
lemma checkViewChanges_eq {nv : NewView} {vcs : List ViewChange} {seen : List String}
    {chosen : PreparedCertificate × Block} (hlead : nv.leaderID = s.leaderForView nv.view)
    (hvcs : ∀ vc ∈ vcs, AdmitsChange hash s nv.view vc ∧ vc.nodeID ∉ seen)
    (hnd : (vcs.map ViewChange.nodeID).Nodup) :
    s.checkViewChanges hash nv seen chosen vcs = vcs.foldlM State.selectPrepared chosen := by
  induction vcs generalizing seen chosen with
  | nil => rfl
  | cons vc vcs ih =>
    obtain ⟨hvc, hseen⟩ := hvcs vc mem_cons_self
    rw [map_cons, nodup_cons] at hnd
    have hrest : ∀ next, s.checkViewChanges hash nv (vc.nodeID :: seen) next vcs =
        vcs.foldlM State.selectPrepared next := fun next => by
      refine ih (fun vc' hvc' => ?_) hnd.2
      obtain ⟨hadm, hnot⟩ := hvcs vc' (mem_cons_of_mem _ hvc')
      refine ⟨hadm, fun hmem => (mem_cons.1 hmem).elim (fun he => ?_) hnot⟩
      exact hnd.1 (he ▸ mem_map_of_mem hvc')
    simp only [State.checkViewChanges, hvc.evidence, hvc.validator, hvc.newView_eq, hvc.leader_eq,
      hlead, hseen, foldlM_cons, hrest, require, not_false_eq_true, and_self, if_true]
    rfl

/-- A NEW-VIEW built from a replica's table passes the checks of every replica of the committee that
has not moved past it, and carries the highest prepared certificate. -/
lemma AdmittedVotes.newView_valid (h : AdmittedVotes hash s) {newView height : Nat} {nv : NewView}
    (hbuild : s.buildNewView newView height = .ok nv) {peer : State} (hsame : SameCommittee s peer)
    (hview : peer.viewID ≤ newView) :
    peer.validateNewView hash nv = .ok () ∧ ∃ chosen, Highest nv.viewChanges chosen ∧
        nv.selectedPrepared = if chosen.1.blockHash ≠ "" then some chosen.1 else none := by
  unfold State.buildNewView at hbuild
  simp only [require_bind_eq_ok] at hbuild
  obtain ⟨-, hquor, hbuild⟩ := hbuild
  obtain ⟨chosen, hchosen, hnv⟩ := bind_eq_ok.1 hbuild
  obtain ⟨hnewView, hlead, hvcs, hcert, hblk⟩ : nv.view = newView ∧
      nv.leaderID = s.leaderForView newView ∧
      nv.viewChanges = (s.viewChangeVotes.get newView).sortedValues ∧
      nv.selectedPrepared = (if chosen.1.blockHash ≠ "" then some chosen.1 else none) ∧
      nv.selectedBlock = if chosen.1.blockHash ≠ "" then some chosen.2 else none := by
    cases hnv
    exact ⟨rfl, rfl, rfl, rfl, rfl⟩
  have hfind : ∀ vc ∈ nv.viewChanges, AdmitsChange hash peer nv.view vc := by
    intro vc hvc
    obtain ⟨id, hid⟩ := GoMap.mem_sortedValues.1 (hvcs ▸ hvc)
    exact hnewView ▸ hsame.admitsChange (h newView id vc hid).2
  have hnd : (nv.viewChanges.map ViewChange.nodeID).Nodup := by
    rw [hvcs, GoMap.map_sortedValues (g := id) fun id vc hid => (h newView id vc hid).1, map_id]
    exact GoMap.nodup_sortedKeys _
  have hlead' : nv.leaderID = peer.leaderForView nv.view := by
    rw [hlead, hnewView, hsame.leaderForView]
  have hcheck :
      peer.checkViewChanges hash nv [] (default, default) nv.viewChanges = .ok chosen := by
    rw [checkViewChanges_eq hlead' (fun vc hvc => ⟨hfind vc hvc, not_mem_nil⟩) hnd, hvcs]
    exact hchosen
  have hstart : Highest ([] : List ViewChange) (default, default) :=
    ⟨by simp, fun hne => absurd rfl hne, by simp⟩
  have hhigh := (checkViewChanges_ok hstart hcheck).1
  rw [nil_append] at hhigh
  refine ⟨?_, chosen, hhigh, hcert⟩
  unfold State.validateNewView
  simp only [require_bind_eq_ok, hcheck]
  refine ⟨hnewView ▸ hview, hlead', ?_, bind_eq_ok.2 ⟨chosen, rfl, ?_⟩⟩
  · rwa [hvcs, GoMap.length_sortedValues, State.commitQuorum, hsame.validatorSet]
  by_cases hemp : chosen.1.blockHash = ""
  · simp [hcert, hblk, hemp, require_eq_ok]
  obtain ⟨vc, hvc, hprep, hpreparedBlock⟩ := hhigh.mem hemp
  rcases (validateEvidence_ok ((hfind vc hvc).evidence "")).block _ hprep
      with ⟨b, hb, hhash, -, hdig⟩
  cases hb.symm.trans hpreparedBlock
  simp [hcert, hblk, hemp, require_eq_ok, hhash, hdig]

/-- In every reachable state of a replica, the NEW-VIEW it builds is valid at every replica with the
same validators and first leader that is not past the view, and its certificate is the highest of
the view changes it includes. -/
theorem newView_accepted (hash : BlockCore → String) (nodeID leaderID : String)
    (validators : List String) (calls : List Call) (i newView height : Nat) (nv : NewView)
    (hbuild : (callState hash (State.new nodeID leaderID validators) calls i).buildNewView newView
      height = .ok nv) :
    (∀ peer, SameCommittee (callState hash (State.new nodeID leaderID validators) calls i) peer →
      peer.viewID ≤ newView → peer.validateNewView hash nv = .ok ()) ∧
    (∀ vc ∈ nv.viewChanges, ∀ cert, vc.prepared = some cert → ∃ best,
      nv.selectedPrepared = some best ∧ (cert.view < best.view ∨
        cert.view = best.view ∧ cert.height ≤ best.height)) ∧
    ∀ best, nv.selectedPrepared = some best → ∃ vc ∈ nv.viewChanges, vc.prepared = some best := by
  have hvotes :
      AdmittedVotes hash (callState hash (State.new nodeID leaderID validators) calls i) :=
    Run.run_induction (fun _ _ _ h => by simp [State.new] at h)
      (fun s c h => h.step (stepped_call hash s c)) i
  refine ⟨fun peer hsame hview => (hvotes.newView_valid hbuild hsame hview).1, ?_⟩
  -- any replica of the committee in view 0 serves to name the certificate
  have hzero : SameCommittee (callState hash (State.new nodeID leaderID validators) calls i)
      { callState hash (State.new nodeID leaderID validators) calls i with viewID := 0 } :=
        ⟨rfl, rfl⟩
  obtain ⟨chosen, hhigh, hselected⟩ := (hvotes.newView_valid hbuild hzero (Nat.zero_le _)).2
  rw [hselected]
  refine ⟨fun vc hvc cert hcert => ?_, fun best hbest => ?_⟩
  · have hne : chosen.1.blockHash ≠ "" := fun hempty => by
      simp [hhigh.none_of_empty hempty vc hvc] at hcert
    refine ⟨chosen.1, if_pos hne, ?_⟩
    have := hhigh.le vc hvc cert hcert
    omega
  · split at hbest
    · next hne =>
      cases hbest
      obtain ⟨vc, hvc, hcert, -⟩ := hhigh.mem hne
      exact ⟨vc, hvc, hcert⟩
    · cases hbest

/-- What three of four replicas prepared in a view, at height 1. -/
def preparedIn (view : Nat) (b : Block) : PreparedCertificate where
  view := view
  sequence := 1
  height := 1
  blockHash := b.blockHash
  prepares := ["a", "b", "c"].map fun node => .ofBlock view node b

/-- The VIEW-CHANGE to view 2 of a replica that has prepared a block in the view before, or
nothing. -/
def changeToTwo (node : String) (prepared : Option (Nat × Block)) : ViewChange where
  view := 1
  newView := 2
  nodeID := node
  height := 1
  leaderID := "c"
  stableCheckpoint := none
  prepared := prepared.map fun p => preparedIn p.1 p.2
  preparedBlock := prepared.map Prod.snd

/-- Replica `a` reports a block of view 0, `c` one of view 1 and `d` none. -/
def threeChanges : List ViewChange :=
  [changeToTwo "a" (some (0, plainBlock 1 "a")), changeToTwo "c" (some (1, plainBlock 1 "b")),
    changeToTwo "d" none]

/-- The NEW-VIEW that `c` builds of them: the block of view 1 is selected. -/
theorem newView_accepted_threeChanges :
    ({ State.new "b" "a" ["a", "b", "c", "d"] with viewID := 1 }).validateNewView plainDigest
      { view := 2, leaderID := "c", height := 1, viewChanges := threeChanges
        selectedPrepared := some (preparedIn 1 (plainBlock 1 "b"))
        selectedBlock := some (plainBlock 1 "b") } = .ok () :=
  (newView_accepted plainDigest "c" "a" ["a", "b", "c", "d"]
    (threeChanges.map .acceptViewChange) 3 2 1
    _ (by decide +kernel)).1 _ ⟨by decide, by decide⟩ (by decide)

end ChainLab.Pbft
