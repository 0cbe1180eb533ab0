import ChainLab.Pbft.Safety.Tables

/-!
# The invariant of a replica state

Everything in the replica state of a node that follows the handlers goes back to messages that were
signed, and every call with messages that were signed keeps it so.
-/

namespace ChainLab.Pbft

open List GoMap
open State

variable {hash : BlockCore → String} {K : Core.Committee String} {sent sent' : List Message}
    {s s' : State}

/-! ## The replica state -/

/-- Prepared certificates are filed under their height and backed by a quorum. -/
def SoundPrepared (K : Core.Committee String) (sent : List Message)
    (prepared : GoMap Nat PreparedCertificate) : Prop :=
  ∀ height cert, prepared.find height = some cert → cert.height = height ∧
    cert.sequence = height ∧ cert.blockHash ≠ "" ∧
    Core.Supported K (sentVotes prepareKind sent) cert.view height cert.blockHash

/-- A view change of its node, whose report is backed by a quorum. -/
structure GenuineChange (K : Core.Committee String) (sent : List Message) (vc : ViewChange) :
    Prop where
  signed : vc.nodeID ∈ K.faulty ∨ .viewChange vc ∈ sent
  backed : ∀ cert, vc.prepared = some cert → cert.sequence = cert.height ∧
    Core.Supported K (sentVotes prepareKind sent) cert.view cert.height cert.blockHash

def SoundChanges (K : Core.Committee String) (sent : List Message)
    (changes : GoMap Nat (GoMap String ViewChange)) : Prop :=
  ∀ view node vc, (changes.get view).find node = some vc →
    vc.nodeID = node ∧ vc.newView = view ∧ GenuineChange K sent vc

structure StateInv (hash : BlockCore → String) (K : Core.Committee String) (sent : List Message)
    (s : State) : Prop where
  validators : ∀ node, s.isValidator node = true → node ∈ K.replicas
  quorum_eq : s.prepareQuorum = K.quorum
  prepares :
    SoundVotes prepareKind K sent s.viewID s.lockedBlocks s.prepareVotes s.earlyPrepareVotes
  commits : SoundVotes commitKind K sent s.viewID s.lockedBlocks s.commitVotes s.earlyCommitVotes
  locks : SoundLocks hash s.viewID s.lockedBlocks s.prePrepareBySlot s.preparedByHeight
  prepared : SoundPrepared K sent s.preparedByHeight
  changes : SoundChanges K sent s.viewChangeVotes

def SequencesMatch (sent : List Message) : Prop :=
  ∀ p : Prepare, .prepare p ∈ sent → p.sequence = p.height

variable {vc : ViewChange} {blockHash : String} {count height : Nat} {reached : Bool} {b : Block}

lemma GenuineChange.mono (h : GenuineChange K sent vc) (hsub : sent ⊆ sent') :
    GenuineChange K sent' vc where
  signed := h.signed.imp_right fun hmem => hsub hmem
  backed cert hcert := ⟨(h.backed cert hcert).1,
    (h.backed cert hcert).2.mono (sentVotes_mono prepareKind hsub)⟩

lemma StateInv.mono (h : StateInv hash K sent s) (hsub : sent ⊆ sent') :
    StateInv hash K sent' s where
  __ := h
  prepares := h.prepares.mono hsub
  commits := h.commits.mono hsub
  prepared height cert hcert := by
    obtain ⟨hht, hseq, hne, hquor⟩ := h.prepared height cert hcert
    exact ⟨hht, hseq, hne, hquor.mono (sentVotes_mono prepareKind hsub)⟩
  changes view node vc hvc := by
    obtain ⟨hnode, hview, hgen⟩ := h.changes view node vc hvc
    exact ⟨hnode, hview, hgen.mono hsub⟩

/-! ## Proposals and votes -/

lemma stateInv_lockPrePrepare (hinj : Function.Injective hash) (h : StateInv hash K sent s)
    {pre : PrePrepare} (hvalid : ValidPrePrepare hash s pre) :
    StateInv hash K sent (s.lockPrePrepare pre) := by
  have hslot : slotKey pre.view pre.sequence = slotKey s.viewID pre.block.height := by
    rw [hvalid.view_eq, hvalid.sequence_eq, hvalid.block_height]
  have hsame : ∀ b', s.lockedBlocks.find pre.blockHash = some b' →
      b'.height = pre.block.height := by
    intro b' hb'
    have hcore : b'.toBlockCore = pre.block.toBlockCore :=
      hinj ((h.locks.block _ _ hb').2.2.trans hvalid.digest.symm)
    exact congrArg BlockCore.height hcore
  have hprep : ∀ cert, s.preparedByHeight.find pre.block.height = some cert →
      cert.blockHash = pre.block.blockHash := by
    intro cert hcert
    rw [hvalid.block_height] at hcert
    have hget := get_of_find hcert
    rcases hvalid.prepared with hnone | heq
    · exact absurd (hget ▸ hnone) (h.prepared _ _ hcert).2.2.1
    · rw [← hget, heq, hvalid.block_hash]
  have hlocks := h.locks.lock (b := pre.block) (hvalid.block_hash.symm ▸ hvalid.hash_ne)
    (hvalid.digest.trans hvalid.block_hash.symm) hinj hprep
  rw [hvalid.block_hash] at hlocks
  exact
    { h with
      prepares := by
        simp only [lockPrePrepare, replayEarlyVotes, hslot]
        exact h.prepares.replay hsame fun _ vote hvote => of_decide_eq_true hvote
      commits := by
        simp only [lockPrePrepare, replayEarlyVotes, hslot]
        exact h.commits.replay hsame fun _ vote hvote => of_decide_eq_true hvote
      locks := by
        simp only [lockPrePrepare, replayEarlyVotes, hslot]
        exact hlocks }

lemma StateInv.locked_block (h : StateInv hash K sent s) {view sequence : Nat}
    (hview : view = s.viewID) (hseq : sequence = height) (hne : blockHash ≠ "")
    (hlock : s.prePrepareBySlot.get (slotKey view sequence) = blockHash) :
    s.prePrepareBySlot.find (s.viewID, height) = some blockHash ∧
      ∃ b, s.lockedBlocks.find blockHash = some b ∧ b.height = height := by
  subst hview hseq
  have hfind := (get_eq_iff hne).1 hlock
  exact ⟨hfind, (h.locks.slot _ _ hfind).2⟩

lemma AdmitsVote.genuine {α : Type} {k : VoteKind α} {vote : α} (h : StateInv hash K sent s)
    (hadm : AdmitsVote s (k.nodeID vote) (k.view vote) (k.sequence vote) (k.height vote))
    (hsign : k.nodeID vote ∈ K.faulty ∨ k.message vote ∈ sent) : Genuine k K sent s.viewID vote :=
  ⟨hadm.view_eq, hadm.sequence_eq, h.validators _ hadm.validator, hsign⟩

variable {p : Prepare} {c : Commit} {nv : NewView} {slot : Slot} {gone : Slot → Bool} {m : Message}
  {byz : Finset String}

section

variable (h : StateInv hash K sent s)

include h

lemma stateInv_recordPrepare (hadm : AdmitsVote s p.nodeID p.view p.sequence p.height)
    (hsign : p.nodeID ∈ K.faulty ∨ .prepare p ∈ sent) (hne : p.blockHash ≠ "")
    (hlock : s.prePrepareBySlot.get (slotKey p.view p.sequence) = p.blockHash) :
    StateInv hash K sent (s.recordPrepare p) := by
  have hgen : Genuine prepareKind K sent s.viewID p := AdmitsVote.genuine h hadm hsign
  have hblk := (h.locked_block hadm.view_eq hadm.sequence_eq hne hlock).2
  exact { h with prepares := h.prepares.record hgen hblk }

lemma StateInv.prepare_supported (hblk : ∃ b, s.lockedBlocks.find blockHash = some b ∧
    b.height = height) (hquor : s.prepareQuorum ≤ (s.prepareVotes.get blockHash).len) :
    Core.Supported K (sentVotes prepareKind sent) s.viewID height blockHash := by
  obtain ⟨b, hb, rfl⟩ := hblk
  exact h.prepares.supported hb (h.quorum_eq ▸ hquor)

lemma stateInv_acceptPrepare (hok : s.acceptPrepare p = .ok (s', reached, count))
    (hsign : p.nodeID ∈ K.faulty ∨ .prepare p ∈ sent) : StateInv hash K sent s' := by
  obtain ⟨hadm, hout⟩ := acceptPrepare_ok hok
  cases hout with
  | buffered hlock hearly =>
    have hgen : Genuine prepareKind K sent s.viewID p := AdmitsVote.genuine h hadm hsign
    exact { h with prepares := h.prepares.buffer hgen }
  | counted hlock hne => exact stateInv_recordPrepare h hadm hsign hne hlock
  | reached hlock hne hquor =>
    have hrec := stateInv_recordPrepare h hadm hsign hne hlock
    obtain ⟨hfind, hblk⟩ := h.locked_block hadm.view_eq hadm.sequence_eq hne hlock
    have hsupp := hrec.prepare_supported hblk hquor
    rcases storePrepared_cases (s.recordPrepare p) _ with ⟨_, hs⟩ | ⟨_, -, -, hs⟩
    · rw [hs]
      refine { hrec with locks := hrec.locks.certify hfind, prepared := ?_ }
      intro height cert hcert
      obtain ⟨rfl, rfl⟩ | hcert := of_find_put hcert
      · exact ⟨rfl, hadm.sequence_eq, hne, hadm.view_eq ▸ hsupp⟩
      · exact hrec.prepared _ _ hcert
    · rw [hs]
      exact { hrec with }

lemma stateInv_acceptCommit (hok : s.acceptCommit c = .ok (s', reached, count, b))
    (hsign : c.nodeID ∈ K.faulty ∨ .commit c ∈ sent) : StateInv hash K sent s' := by
  obtain ⟨hadm, hout⟩ := acceptCommit_ok hok
  have hgen : Genuine commitKind K sent s.viewID c := AdmitsVote.genuine h hadm hsign
  cases hout with
  | buffered hlock hearly => exact { h with commits := h.commits.buffer hgen }
  | counted hlock hne | reached hlock hne =>
    have hblk := (h.locked_block hadm.view_eq hadm.sequence_eq hne hlock).2
    exact { h with commits := h.commits.record hgen hblk }

lemma commit_supported (hok : s.acceptCommit c = .ok (s', true, count, b))
    (hsign : c.nodeID ∈ K.faulty ∨ .commit c ∈ sent) :
    Core.Supported K (sentVotes commitKind sent) c.view c.height c.blockHash := by
  have h' := stateInv_acceptCommit h hok hsign
  obtain ⟨hadm, hout⟩ := acceptCommit_ok hok
  cases hout with
  | reached hlock hne hquor =>
    obtain ⟨b, hb, hht⟩ := (h.locked_block hadm.view_eq hadm.sequence_eq hne hlock).2
    have := h'.commits.supported hb (h.quorum_eq ▸ hquor)
    rw [hht] at this
    exact hadm.view_eq ▸ this

/-! ## View changes -/

lemma genuineChange_of_authentic (hseq : SequencesMatch sent)
    (hauth : AuthenticViewChange K.faulty sent vc) (hvalid : ValidEvidence hash s vc) :
    GenuineChange K sent vc := by
  refine ⟨hauth.1, ?_⟩
  intro cert hcert
  have hprep := hvalid.prepared cert hcert
  have hval : ∀ vote ∈ cert.prepares, vote.nodeID ∈ K.replicas := fun vote hvote =>
    h.validators _ (hprep.validator vote hvote)
  have hquor : K.quorum ≤ cert.prepares.length := h.quorum_eq ▸ hprep.quorum_le
  refine ⟨?_, ?_⟩
  · -- a correct node has signed one of the votes, for one sequence number and height
    rcases exists_correct_vote (k := prepareKind) hquor hprep.nodup hval with ⟨vote, hvote, hcorr⟩
    have hmem := (hauth.2.1 cert hcert vote hvote).resolve_left hcorr
    obtain ⟨-, hs, hh, -⟩ := hprep.agrees vote hvote
    rw [← hs, ← hh]
    exact hseq vote hmem
  · refine supported_of_votes (k := prepareKind) hquor hprep.nodup ?_
    intro vote hvote
    obtain ⟨hview, -, hht, hhash⟩ := hprep.agrees vote hvote
    exact ⟨hval vote hvote, hauth.2.1 cert hcert vote hvote, hview, hht, hhash⟩

end

lemma isHighest_highestPrepared (h : StateInv hash K sent s) (height : Nat) : Core.IsHighest
      {c : Core.Report String | (s.preparedByHeight.find c.height).map
        (fun cert => (cert.view, cert.blockHash)) = some (c.view, c.block) ∧ c.height ≤ height}
      ((if (s.highestPrepared height).1.blockHash ≠ "" then some (s.highestPrepared height).1
        else none).map PreparedCertificate.toReport) := by
  have hne : ∀ e ∈ s.preparedByHeight.entries, e.2.blockHash ≠ "" := fun e he =>
    (h.prepared _ _ (find_of_mem_entries he)).2.2.1
  obtain ⟨hmem, hle⟩ := highestPrepared_spec hne height
  -- a report of the set is an entry of the map
  have hent : ∀ {c : Core.Report String}, (s.preparedByHeight.find c.height).map
      (fun cert => (cert.view, cert.blockHash)) = some (c.view, c.block) →
      ∃ cert, s.preparedByHeight.find c.height = some cert ∧ cert.toReport = c := by
    intro c hc
    obtain ⟨cert, hfind, heq⟩ := Option.map_eq_some_iff.1 hc
    refine ⟨cert, hfind, ?_⟩
    cases c
    cases heq
    simp [PreparedCertificate.toReport, (h.prepared _ _ hfind).1]
  constructor
  · intro hnone
    rw [Set.eq_empty_iff_forall_notMem]
    rintro c ⟨hc, hht⟩
    obtain ⟨cert, hfind, -⟩ := hent hc
    have := (hle _ (find_eq_some_iff.1 hfind) hht).1
    simp [this] at hnone
  · intro c hc
    split at hc
    · rename_i hchosen
      cases hc
      obtain ⟨e, he, hht, heq⟩ := hmem hchosen
      have hfind : s.preparedByHeight.find e.1 = some (s.highestPrepared height).1 := by
        rw [find_of_mem_entries he, heq]
      have hkey := (h.prepared _ _ hfind).1
      refine ⟨⟨?_, ?_⟩, ?_⟩
      · simp [PreparedCertificate.toReport, hkey, hfind]
      · simpa [PreparedCertificate.toReport, hkey] using hht
      · rintro d ⟨hd, hdheight⟩
        obtain ⟨cert, hdfind, rfl⟩ := hent hd
        rcases (hle _ (find_eq_some_iff.1 hdfind) hdheight).2 with hlt | ⟨hview, hh⟩
        · exact .inl hlt
        refine .inr ⟨hview, ?_⟩
        rcases Nat.eq_or_lt_of_le hh with heq' | hlt
        · -- one certificate per height
          have hcert : s.preparedByHeight.find (s.highestPrepared height).1.height =
              some cert := heq' ▸ hdfind
          rw [hkey, hfind] at hcert
          cases hcert
          exact .inr ⟨rfl, rfl⟩
        · exact .inl hlt
    · cases hc

lemma stateInv_acceptViewChange (h : StateInv hash K sent s)
    (hok : s.acceptViewChange hash vc = .ok (s', reached, count)) (hgen : GenuineChange K sent vc) :
    StateInv hash K sent s' := by
  rcases (acceptViewChange_ok hok).2.2.2 with rfl | ⟨-, rfl⟩
  · exact h
  refine { h with changes := ?_ }
  intro view node vc' hvc'
  obtain ⟨rfl, rfl, rfl⟩ | hold := of_find_putIn hvc'
  · exact ⟨rfl, rfl, hgen⟩
  · exact h.changes _ _ _ hold

/-! ## New views -/

/-- What the selection of a valid NEW-VIEW is: nothing when nothing is reported, and the highest
report together with its block otherwise. -/
lemma ValidNewView.selection (hinj : Function.Injective hash) (h : ValidNewView hash s nv) :
    (nv.selectedPrepared = none ∧ nv.selectedBlock = none ∧ ∀ vc ∈ nv.viewChanges,
      vc.prepared = none) ∨ ∃ cert b, nv.selectedPrepared = some cert ∧ nv.selectedBlock = some b ∧
      cert.blockHash ≠ "" ∧ b.blockHash = cert.blockHash ∧
      hash b.toBlockCore = b.blockHash ∧ b.height = cert.height ∧
      (∃ vc ∈ nv.viewChanges, ∃ c, vc.prepared = some c ∧ c.sequence = cert.sequence ∧
        c.toReport = cert.toReport) ∧
      ∀ vc ∈ nv.viewChanges, ∀ c, vc.prepared = some c → c.toReport.le cert.toReport := by
  refine h.selected.imp_right ?_
  rintro ⟨chosen, cert, b, hhigh, hne, hcert, hblk, hview, hseq, hht, hhash, hbhash, hbdigest⟩
  obtain ⟨vc, hvc, hprep, hvcblock⟩ := hhigh.mem hne
  obtain ⟨b', hb', hb'hash, hb'height, hb'digest⟩ := (h.evidence vc hvc).block _ hprep
  cases hvcblock.symm.trans hb'
  have hrep : chosen.1.toReport = cert.toReport := by
    simp [PreparedCertificate.toReport, hview, hht, hhash]
  have hcore : b.toBlockCore = chosen.2.toBlockCore := by
    apply hinj
    rw [hbdigest, hb'digest, hb'hash]
  refine ⟨cert, b, hcert, hblk, hhash ▸ hne, ?_, ?_, ?_, ?_, ?_⟩
  · rw [hbhash, hb'hash, hhash]
  · rw [hbdigest, hbhash]
  · rw [(congrArg BlockCore.height hcore : b.height = chosen.2.height), hb'height, hht]
  · exact ⟨vc, hvc, _, hprep, hseq.symm, hrep⟩
  · intro vc' hvc' c hc
    rw [← hrep]
    exact hhigh.le vc' hvc' c hc

lemma stateInv_acceptNewView (hinj : Function.Injective hash) (h : StateInv hash K sent s)
    {b : Option Block} (hok : s.acceptNewView hash nv = .ok (s', b))
    (hgen : ∀ vc ∈ nv.viewChanges, GenuineChange K sent vc) : StateInv hash K sent s' := by
  rcases acceptNewView_ok hok with ⟨hvalid, ⟨-, -, rfl⟩ | ⟨-, -, rfl⟩⟩
  · exact { h with }
  have hchg : SoundChanges K sent (s.viewChangeVotes.retain fun view _ => nv.view ≤ view) := by
    intro view node vc hvc
    exact h.changes _ _ _ (find_get_retain hvc).1
  rcases hvalid.selection hinj with ⟨hcert, hblk, -⟩ |
    ⟨cert, b, hcert, hblk, hne, hbhash, hdig, hht, ⟨vc, hvc, c, hc, hcseq, hrep⟩, -⟩
  · simp only [installNewView, hcert, hblk]
    exact
      { h with
        prepares := .empty
        commits := .empty
        locks := .empty
        prepared := fun height cert hfind => by simp at hfind
        changes := hchg }
  · simp only [installNewView, hcert, hblk]
    obtain ⟨hsequence, hsupp⟩ := (hgen vc hvc).backed c hc
    injection hrep with hcview hcheight hchash
    have hstart : SoundLocks hash nv.view ∅ ∅ (GoMap.put ∅ cert.height cert) := by
      constructor <;> simp
    have hlocks := hstart.lock (b := b) (hbhash ▸ hne) hdig hinj (by
      intro cert' hcert'
      rw [hht, find_put_self] at hcert'
      cases hcert'
      exact hbhash.symm)
    refine
      { h with
        prepares := .empty
        commits := .empty
        locks := ?_
        prepared := ?_
        changes := hchg }
    · rwa [show b.height = cert.sequence by rw [hht, ← hcseq, hsequence, hcheight]] at hlocks
    · intro height cert' hcert'
      obtain ⟨rfl, rfl⟩ | hcert' := of_find_put hcert'
      · rw [← hcseq, hsequence, ← hcview, ← hcheight, ← hchash]
        exact ⟨rfl, rfl, hchash ▸ hne, hsupp⟩
      · simp at hcert'

/-! ## Durable commits and checkpoints -/

lemma StateInv.slotReleased_eq (h : StateInv hash K sent s)
    (hfind : s.prePrepareBySlot.find slot = some blockHash) :
    s.slotReleased height slot = decide (slot.2 ≤ height) := by
  obtain ⟨-, b, hb, hht⟩ := h.locks.slot _ _ hfind
  simp [slotReleased, hfind, get_of_find hb, hht]

lemma StateInv.slotPruned_eq (h : StateInv hash K sent s)
    (hfind : s.prePrepareBySlot.find slot = some blockHash) :
    s.slotPruned height slot = decide (slot.2 ≤ height) := by
  obtain ⟨-, b, hb, hht⟩ := h.locks.slot _ _ hfind
  have hblk := h.locks.block _ _ hb
  have hne : b.blockHash ≠ "" := hblk.2.1 ▸ hblk.1
  simp [slotPruned, hashReleased, hfind, hb, get_of_find hb, hht, hne]

lemma find_retain_slots {slots : GoMap Slot String}
    (hgone : ∀ slot blockHash, slots.find slot = some blockHash →
      gone slot = decide (slot.2 ≤ height)) (slot : Slot) :
    (slots.retain fun slot _ => !gone slot).find slot =
      if slot.2 ≤ height then none else slots.find slot := by
  rw [find_retain]
  cases hfind : slots.find slot with
  | none => simp
  | some blockHash =>
    by_cases hle : slot.2 ≤ height <;> simp [Option.filter, hgone slot blockHash hfind, hle]

section

variable (h : StateInv hash K sent s)

include h

/-- What MarkDurableCommit and a stable checkpoint have in common: the blocks up to a height are
dropped, with their votes and locks, and nothing else is added. -/
lemma stateInv_release (hgone : ∀ slot blockHash, s.prePrepareBySlot.find slot = some blockHash →
      gone slot = decide (slot.2 ≤ height)) (hsame : SameReplica s s')
    (hview : s'.viewID = s.viewID)
    (hlck : s'.lockedBlocks = s.lockedBlocks.retain fun x _ => !s.hashReleased height x)
    (hprepares : s'.prepareVotes = s.prepareVotes.retain fun x _ => !s.hashReleased height x)
    (hcomm : s'.commitVotes = s.commitVotes.retain fun x _ => !s.hashReleased height x)
    (hslots : s'.prePrepareBySlot = s.prePrepareBySlot.retain fun slot _ => !gone slot)
    (hearlyP : ∀ slot node vote, (s'.earlyPrepareVotes.get slot).find node = some vote →
      (s.earlyPrepareVotes.get slot).find node = some vote)
    (hearlyC : ∀ slot node vote, (s'.earlyCommitVotes.get slot).find node = some vote →
      (s.earlyCommitVotes.get slot).find node = some vote)
    (hprepared : ∀ k cert, s'.preparedByHeight.find k = some cert →
      s.preparedByHeight.find k = some cert)
    (hchg : ∀ view node vc, (s'.viewChangeVotes.get view).find node = some vc →
      (s.viewChangeVotes.get view).find node = some vc) : StateInv hash K sent s' := by
  refine
    { validators := fun node hnode => h.validators node (hsame.isValidator node ▸ hnode)
      quorum_eq := by
        rw [← h.quorum_eq, prepareQuorum, hsame.validatorSet, prepareQuorum]
      prepares := ?_
      commits := ?_
      locks := ?_
      prepared := fun k cert hcert => h.prepared _ _ (hprepared _ _ hcert)
      changes := fun view node vc hvc => h.changes _ _ _ (hchg _ _ _ hvc) }
  · rw [hview, hlck, hprepares]
    exact h.prepares.release (fun x => !s.hashReleased height x) hearlyP
  · rw [hview, hlck, hcomm]
    exact h.commits.release (fun x => !s.hashReleased height x) hearlyC
  · rw [hview, hlck, hslots]
    refine h.locks.release ?_ ?_ hprepared
    · intro blockHash b hb
      exact (find_retain_eq_some.1 hb).1
    · intro slot blockHash hfind
      rw [find_retain_slots hgone] at hfind
      split at hfind
      · cases hfind
      -- the block of a lock that stays is above the height, so it stays too
      rename_i habove
      refine ⟨hfind, fun b hb => find_retain_eq_some.2 ⟨hb, ?_⟩⟩
      obtain ⟨-, b', hb', hht⟩ := h.locks.slot _ _ hfind
      simp [hashReleased, hb', hht, habove]

lemma stateInv_markDurableCommit (hne : b.blockHash ≠ "")
    (hpos : b.height ≠ 0) : StateInv hash K sent (s.markDurableCommit b) := by
  simp only [markDurableCommit, hne, hpos, or_self, if_false]
  exact stateInv_release h (fun _ _ hfind => h.slotReleased_eq hfind)
    ⟨rfl, rfl, rfl⟩ rfl rfl rfl rfl rfl (fun _ _ _ => id) (fun _ _ _ => id)
      (fun _ _ => of_find_delete)
    (fun _ _ _ => id)

lemma stateInv_pruneStable (height : Nat) : StateInv hash K sent (s.pruneStable height) :=
  stateInv_release h (fun _ _ hfind => h.slotPruned_eq hfind) ⟨rfl, rfl, rfl⟩ rfl rfl rfl rfl rfl
    (fun _ _ _ hvote => (find_get_retain hvote).1)
    (fun _ _ _ hvote => (find_get_retain hvote).1)
    (fun _ _ hcert => (find_retain_eq_some.1 hcert).1)
    (fun _ _ _ hvc => (find_get_retain hvc).1)

lemma stateInv_acceptCheckpoint {cp : Checkpoint} {stable : Bool}
    {cert : CheckpointCertificate} (hok : s.acceptCheckpoint cp = .ok (s', stable, count, cert)) :
    StateInv hash K sent s' := by
  rcases acceptCheckpoint_ok hok with rfl | ⟨_, -, -, -, rfl⟩
  · exact { h with }
  · refine stateInv_pruneStable ?_ cp.height
    exact { h with }

end

/-! ## What has been signed only grows -/

variable {byz : Finset String}

lemma Signed.mono (h : Signed byz sent m) (hsub : sent ⊆ sent') : Signed byz sent' m :=
  h.imp_right fun hmem => hsub hmem

lemma AuthenticViewChange.mono (h : AuthenticViewChange byz sent vc) (hsub : sent ⊆ sent') :
    AuthenticViewChange byz sent' vc :=
  ⟨h.1.mono hsub, fun cert hcert vote hvote => (h.2.1 cert hcert vote hvote).mono hsub,
    fun cert hcert vote hvote => (h.2.2 cert hcert vote hvote).mono hsub⟩

lemma Authentic.mono (h : Authentic byz sent m) (hsub : sent ⊆ sent') : Authentic byz sent' m := by
  cases m with
  | prePrepare msg | prepare msg | commit msg => exact Signed.mono h hsub
  | viewChange vc => exact AuthenticViewChange.mono h hsub
  | newView nv =>
    exact ⟨h.1.mono hsub, fun vc hvc => (h.2.1 vc hvc).mono hsub,
      fun cert hcert vote hvote => (h.2.2 cert hcert vote hvote).mono hsub⟩
  | checkpoint msg => exact Signed.mono h hsub
  | catchup source cert b => exact fun vote hvote => (h vote hvote).mono hsub

lemma Event.Verifies.mono {e : Event} (h : e.Verifies byz sent) (hsub : sent ⊆ sent') :
    e.Verifies byz sent' := by
  cases e with
  | deliver m => exact Authentic.mono h hsub
  | _ => trivial

/-! ## View changes of the node itself -/

lemma StateInv.highestPrepared_backed (h : StateInv hash K sent s)
    (hne : (s.highestPrepared height).1.blockHash ≠ "") :
    (s.highestPrepared height).1.sequence = (s.highestPrepared height).1.height ∧
      Core.Supported K (sentVotes prepareKind sent) (s.highestPrepared height).1.view
        (s.highestPrepared height).1.height (s.highestPrepared height).1.blockHash := by
  have hall : ∀ e ∈ s.preparedByHeight.entries, e.2.blockHash ≠ "" := fun e he =>
    (h.prepared _ _ (find_of_mem_entries he)).2.2.1
  obtain ⟨e, he, -, heq⟩ := (highestPrepared_spec hall height).1 hne
  obtain ⟨hht, hseq, -, hquor⟩ := h.prepared _ _ (find_of_mem_entries he)
  rw [heq, hseq, hht]
  exact ⟨rfl, hquor⟩

lemma genuineChange_own (h : StateInv hash K sent s)
    (hprepared : vc.prepared = if (s.highestPrepared height).1.blockHash ≠ ""
      then some (s.highestPrepared height).1 else none) (hmem : .viewChange vc ∈ sent) :
    GenuineChange K sent vc := by
  refine ⟨.inr hmem, ?_⟩
  intro cert hcert
  rw [hprepared] at hcert
  split at hcert
  · rename_i hne
    cases hcert
    exact h.highestPrepared_backed hne
  · cases hcert

lemma genuineChanges_of_newView (h : StateInv hash K sent s) (hseq : SequencesMatch sent)
    (hvalid : ValidNewView hash s nv) (hauth : Authentic K.faulty sent (.newView nv)) :
    ∀ vc ∈ nv.viewChanges, GenuineChange K sent vc :=
  fun vc hvc => genuineChange_of_authentic h hseq (hauth.2.1 vc hvc) (hvalid.evidence vc hvc)

end ChainLab.Pbft
