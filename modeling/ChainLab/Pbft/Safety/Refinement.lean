import ChainLab.Pbft.Safety.Actions

/-!
# The nodes refine the abstract machine

Each call of a node is a step of the abstract machine of `Pbft.Core`, or two, or none, as long as
the call keeps the rules about votes and view changes that the handlers do not enforce.
-/

namespace ChainLab.Pbft

open Function (update update_self update_apply)
open List GoMap
open Relation (ReflTransGen)
open Core.Machine
open ViewChange

abbrev Abstract := Core.Machine String String

/-! ## The correspondence -/

/-- The abstract machine has the same view, durable height, locks and prepared blocks as the
node. -/
structure Shows (m : Abstract) (r : String) (n : Node) : Prop where
  view : m.view r = n.state.viewID
  durable : m.durable r = n.committedHeight
  lock : ∀ height, m.lock r height = n.state.prePrepareBySlot.find (n.state.viewID, height)
  prepared : ∀ height, m.prepared r height =
    (n.state.preparedByHeight.find height).map fun cert => (cert.view, cert.blockHash)

structure Refines (nodes : String → Node) (sent : List Message) (m : Abstract) : Prop where
  nodes : ∀ r, Shows m r (nodes r)
  prepares : m.prepares = sentVotes prepareKind sent
  commits : m.commits = sentVotes commitKind sent
  changes : m.changes = sentChanges sent

/-- Two machines that differ in the state of one replica only. -/
structure OnlyAt (r : String) (m m' : Abstract) : Prop where
  view : ∀ r', r' ≠ r → m'.view r' = m.view r'
  durable : ∀ r', r' ≠ r → m'.durable r' = m.durable r'
  lock : ∀ r', r' ≠ r → m'.lock r' = m.lock r'
  prepared : ∀ r', r' ≠ r → m'.prepared r' = m.prepared r'

section Refines

variable {nodes : String → Node} {sent sent' : List Message} {m m' : Abstract} {r : String}
    {n' : Node}

lemma Refines.update (h : Refines nodes sent m) (honly : OnlyAt r m m') (hshows : Shows m' r n')
    (hprepares : m'.prepares = sentVotes prepareKind sent')
    (hcomm : m'.commits = sentVotes commitKind sent') (hchg : m'.changes = sentChanges sent') :
    Refines (update nodes r n') sent' m' := by
  refine ⟨fun r' => ?_, hprepares, hcomm, hchg⟩
  by_cases hr : r' = r
  · subst hr
    simpa using hshows
  rw [Function.update_of_ne hr]
  have hold := h.nodes r'
  exact
    { view := (honly.view r' hr).trans hold.view
      durable := (honly.durable r' hr).trans hold.durable
      lock := fun height => by rw [honly.lock r' hr]; exact hold.lock height
      prepared := fun height => by rw [honly.prepared r' hr]; exact hold.prepared height }

lemma OnlyAt.refl (r : String) (m : Abstract) : OnlyAt r m m :=
  ⟨fun _ _ => rfl, fun _ _ => rfl, fun _ _ => rfl, fun _ _ => rfl⟩

lemma onlyAt_lockBlock (height : Nat) (block : String) :
    OnlyAt r m (m.lockBlock r height block) := by
  constructor <;> intro r' hr <;> simp [lockBlock, hr]

lemma onlyAt_certify (height : Nat) (block : String) : OnlyAt r m (m.certify r height block) := by
  constructor <;> intro r' hr <;> simp [certify, hr]

lemma onlyAt_advance : OnlyAt r m (m.advance r) := by
  constructor <;> intro r' hr <;> simp [advance, hr]

lemma onlyAt_forget (lock : Nat → Option String) (prepared : Nat → Option (Nat × String)) :
    OnlyAt r m (m.forget r lock prepared) := by
  constructor <;> intro r' hr <;> simp [forget, hr]

lemma onlyAt_install (target : Nat) (selected : Option (Core.Report String)) :
    OnlyAt r m (m.install r target selected) := by
  constructor <;> intro r' hr <;> simp [install, hr]

lemma Shows.congr {n : Node} (h : Shows m r n) (hview : n'.state.viewID = n.state.viewID)
    (hht : n'.committedHeight = n.committedHeight)
    (hslots : n'.state.prePrepareBySlot = n.state.prePrepareBySlot)
    (hprep : n'.state.preparedByHeight = n.state.preparedByHeight) : Shows m r n' where
  view := h.view.trans hview.symm
  durable := h.durable.trans hht.symm
  lock height := by rw [hslots, hview]; exact h.lock height
  prepared height := by rw [hprep]; exact h.prepared height

end Refines

/-! ## Messages and the sets of votes -/

section

variable {α : Type} {k : VoteKind α} {sent ms : List Message}

lemma sent_append_of_known {β : Type} {message : α → Message} {f : α → β}
    (h : ∀ a, message a ∈ ms → message a ∈ sent) :
    {x | ∃ a, message a ∈ sent ++ ms ∧ f a = x} = {x | ∃ a, message a ∈ sent ∧ f a = x} := by
  ext x
  simp only [mem_append, Set.mem_ofPred_eq]
  constructor
  · rintro ⟨a, ha, rfl⟩
    exact ⟨a, ha.elim id (h a), rfl⟩
  · rintro ⟨a, ha, rfl⟩
    exact ⟨a, .inl ha, rfl⟩

lemma sent_append_message {β : Type} {message : α → Message} (f : α → β)
    (hinj : Function.Injective message) (a : α) :
    {x | ∃ b, message b ∈ sent ++ [message a] ∧ f b = x} =
      insert (f a) {x | ∃ b, message b ∈ sent ∧ f b = x} := by
  ext x
  simp only [Set.mem_ofPred_eq, Set.mem_insert_iff, mem_append, mem_singleton, hinj.eq_iff,
    or_and_right, exists_or, exists_eq_left', eq_comm, or_comm]

lemma sentVotes_append_of_known (h : ∀ vote, k.message vote ∈ ms → k.message vote ∈ sent) :
    sentVotes k (sent ++ ms) = sentVotes k sent :=
  sent_append_of_known h

lemma sentVotes_append_prepare (p : Prepare) : sentVotes prepareKind (sent ++ [.prepare p]) =
      insert (prepareKind.toVote p) (sentVotes prepareKind sent) :=
  sent_append_message prepareKind.toVote (fun _ _ h => Message.prepare.inj h) p

lemma sentVotes_append_commit (c : Commit) : sentVotes commitKind (sent ++ [.commit c]) =
      insert (commitKind.toVote c) (sentVotes commitKind sent) :=
  sent_append_message commitKind.toVote (fun _ _ h => Message.commit.inj h) c

lemma sentChanges_append_of_known (h : ∀ vc, .viewChange vc ∈ ms → .viewChange vc ∈ sent) :
    sentChanges (sent ++ ms) = sentChanges sent :=
  sent_append_of_known h

lemma sentChanges_append_change (vc : ViewChange) :
    sentChanges (sent ++ [.viewChange vc]) = insert vc.toChange (sentChanges sent) :=
  sent_append_message toChange (fun _ _ h => Message.viewChange.inj h) vc

/-- No new votes and no new view changes. -/
def Silent (sent ms : List Message) : Prop :=
  ∀ m ∈ ms, m ∈ sent ∨ m.isOpen = true ∨ ∃ cp, m = .checkpoint cp

lemma silent_nil : Silent sent [] := by
  simp [Silent]

lemma Refines.stutter {nodes : String → Node} {m : Abstract} {r : String} {n' : Node}
    (h : Refines nodes sent m) (hshows : Shows m r n') (hsilent : Silent sent ms) :
    Refines (Function.update nodes r n') (sent ++ ms) m := by
  have hknown : ∀ m ∈ ms, m.isOpen = false → (∀ cp, m ≠ .checkpoint cp) → m ∈ sent := by
    intro m hm hopen hcp
    rcases hsilent m hm with hold | hopen' | ⟨cp, rfl⟩
    · exact hold
    · rw [hopen] at hopen'
      cases hopen'
    · exact absurd rfl (hcp cp)
  refine h.update (.refl r m) hshows ?_ ?_ ?_
  · rw [sentVotes_append_of_known (k := prepareKind) fun p hp =>
      hknown _ hp rfl (by simp [prepareKind])]
    exact h.prepares
  · rw [sentVotes_append_of_known (k := commitKind) fun c hc =>
      hknown _ hc rfl (by simp [commitKind])]
    exact h.commits
  · rw [sentChanges_append_of_known fun vc hvc => hknown _ hvc rfl (by simp)]
    exact h.changes

lemma Refines.still {nodes : String → Node} {m : Abstract} {r : String} {n' : Node}
    (h : Refines nodes sent m) (hshows : Shows m r n') :
    Refines (Function.update nodes r n') sent m := by
  simpa using h.stutter hshows silent_nil

end

/-! ## Locks and votes -/

section

variable {hash : BlockCore → String} {K : Core.Committee String} {careful : Prop}
  {nodes : String → Node} {sent : List Message} {m : Abstract} {r : String} {n' : Node}

lemma simulate_lock (h : Refines nodes sent m) (hinv : StateInv hash K sent (nodes r).state)
    {pre : PrePrepare} (hval : ValidPrePrepare hash (nodes r).state pre) :
    Core.Step K careful m (m.lockBlock r pre.height pre.blockHash) ∧ Refines (update nodes r
        { nodes r with state := (nodes r).state.lockPrePrepare pre }) sent
        (m.lockBlock r pre.height pre.blockHash) := by
  have hslot : slotKey pre.view pre.sequence = ((nodes r).state.viewID, pre.height) := by
    rw [slotKey, hval.view_eq, hval.sequence_eq]
  have hshows := h.nodes r
  refine ⟨.lockBlock r _ _ ?_, ?_⟩
  · intro b hb
    rw [hshows.lock] at hb
    have hne := (hinv.locks.slot _ _ hb).2
    obtain ⟨b', hb', -⟩ := hne
    rcases hval.lock with hemp | heq
    · rw [hslot, get_of_find hb] at hemp
      exact absurd hemp (hinv.locks.block _ _ hb').1
    · rwa [hslot, get_of_find hb] at heq
  · refine h.update (onlyAt_lockBlock _ _) ⟨hshows.view, hshows.durable, fun height => ?_,
      hshows.prepared⟩ h.prepares h.commits h.changes
    simp only [lockBlock, update_self, State.lockPrePrepare,
      State.replayEarlyVotes, hslot, find_put, Prod.mk.injEq, true_and,
      update_apply]
    split
    · rfl
    · exact hshows.lock height

variable {count : Nat} {reached : Bool} {s : State} {b : Block}

abbrev Followed (K : Core.Committee String) (careful : Prop) (m : Abstract) (nodes : String → Node)
    (sent : List Message) : Prop :=
  ∃ m', ReflTransGen (Core.Step K careful) m m' ∧ Refines nodes sent m'

variable {p : Prepare} {c : Commit} {vc : ViewChange} {nv : NewView} {view : Nat}
    {out : List Output}

lemma Shows.acceptCommit {n : Node} (h : Shows m r n)
    (hok : n.state.acceptCommit c = .ok (s, reached, count, b)) :
    Shows m r { n with state := s } := by
  cases (acceptCommit_ok hok).2 with
  | buffered | counted | reached => exact h.congr rfl rfl rfl rfl

def reportOf (vcs : List ViewChange) (node : String) : Option (Core.Report String) :=
  (vcs.find? fun vc => vc.nodeID = node).bind fun vc => vc.toChange.report

lemma reportOf_of_mem {vcs : List ViewChange} (hnd : (vcs.map nodeID).Nodup)
    (hvc : vc ∈ vcs) : reportOf vcs vc.nodeID = vc.toChange.report := by
  induction vcs with
  | nil => cases hvc
  | cons first vcs ih =>
    rw [map_cons, nodup_cons] at hnd
    rcases mem_cons.1 hvc with rfl | hmem
    · simp [reportOf]
    have hne : first.nodeID ≠ vc.nodeID := by
      intro heq
      exact hnd.1 (heq ▸ mem_map_of_mem hmem)
    have hrest := ih hnd.2 hmem
    simpa [reportOf, hne] using hrest

lemma justified_of_validNewView (hinj : Function.Injective hash)
    (hprepares : m.prepares = sentVotes prepareKind sent) (hchg : m.changes = sentChanges sent)
    (hinv : StateInv hash K sent s) (hval : ValidNewView hash s nv)
    (hgen : ∀ vc ∈ nv.viewChanges, GenuineChange K sent vc) :
    m.Justified K nv.view (nv.selectedPrepared.map PreparedCertificate.toReport) := by
  have hmem : ∀ node ∈ (nv.viewChanges.map nodeID).toFinset,
      ∃ vc ∈ nv.viewChanges, vc.nodeID = node ∧
        reportOf nv.viewChanges node = vc.toChange.report := by
    intro node hnode
    obtain ⟨vc, hvc, rfl⟩ := mem_map.1 (mem_toFinset.1 hnode)
    exact ⟨vc, hvc, rfl, reportOf_of_mem hval.nodup hvc⟩
  have hreported : ∀ c : Core.Report String, (∃ node ∈ (nv.viewChanges.map nodeID).toFinset,
        reportOf nv.viewChanges node = some c) ↔
      ∃ vc ∈ nv.viewChanges, ∃ cert, vc.prepared = some cert ∧ cert.toReport = c := by
    intro c
    constructor
    · rintro ⟨node, hnode, hc⟩
      obtain ⟨vc, hvc, -, hreport⟩ := hmem node hnode
      rw [hreport] at hc
      obtain ⟨cert, hcert, rfl⟩ := Option.map_eq_some_iff.1 hc
      exact ⟨vc, hvc, cert, hcert, rfl⟩
    · rintro ⟨vc, hvc, cert, hcert, rfl⟩
      refine ⟨vc.nodeID, mem_toFinset.2 (mem_map_of_mem hvc), ?_⟩
      rw [reportOf_of_mem hval.nodup hvc]
      simp [toChange, hcert]
  refine ⟨(nv.viewChanges.map nodeID).toFinset, reportOf nv.viewChanges, ?_, ?_, ?_, ?_, ?_⟩
  · intro node hnode
    obtain ⟨vc, hvc, rfl, -⟩ := hmem node hnode
    exact hinv.validators _ (hval.validator vc hvc)
  · rw [toFinset_card_of_nodup hval.nodup, length_map, ← hinv.quorum_eq]
    exact hval.quorum_le
  · -- a correct node has sent the change that it is listed with
    intro node hnode hcorr
    obtain ⟨vc, hvc, rfl, hreport⟩ := hmem node hnode
    rw [hchg, hreport]
    refine ⟨vc, (hgen vc hvc).signed.resolve_left hcorr, ?_⟩
    simp [toChange, hval.newView_eq vc hvc]
  · intro node hnode c hc
    obtain ⟨vc, hvc, cert, hcert, rfl⟩ := (hreported c).1 ⟨node, hnode, hc⟩
    rw [hprepares]
    exact ((hgen vc hvc).backed cert hcert).2
  · -- the selection is the highest of the reports, or there is none
    constructor
    · intro hnone
      have hsel : nv.selectedPrepared = none := by simpa using hnone
      rw [Set.eq_empty_iff_forall_notMem]
      intro c hc
      obtain ⟨vc, hvc, cert, hcert, -⟩ := (hreported c).1 hc
      rcases hval.selection hinj with ⟨-, -, hall⟩ | ⟨cert', _, hcert', -⟩
      · rw [hall vc hvc] at hcert
        cases hcert
      · rw [hsel] at hcert'
        cases hcert'
    · intro c hc
      obtain ⟨cert, hcert, rfl⟩ := Option.map_eq_some_iff.1 hc
      rcases hval.selection hinj with ⟨hnone, -⟩ |
        ⟨cert', _, hcert', -, -, -, -, -, ⟨vc, hvc, c, hc, -, hreport⟩, hle⟩
      · rw [hnone] at hcert
        cases hcert
      · cases hcert'.symm.trans hcert
        refine ⟨(hreported _).2 ⟨vc, hvc, c, hc, hreport⟩, ?_⟩
        intro d hd
        obtain ⟨vc', hvc', c', hc', rfl⟩ := (hreported d).1 hd
        exact hle vc' hvc' c' hc'

/-- The rules, for a single call. -/
structure ByTheRules (careful : Prop) (K : Core.Committee String) (w : World) (r : String)
    (op : Op) :
    Prop where
  orderly : Orderly w r op
  behind : careful → ∀ newView height, op = .buildViewChange newView height →
    ∀ r' ∈ K.replicas, r' ∉ K.faulty → (w.nodes r).committedHeight ≤ (w.nodes r').committedHeight
  ahead : careful → ∀ nv, op = .acceptNewView nv → (w.nodes r).state.viewID < nv.view →
    ∀ cert ∈ nv.selectedPrepared, cert.height ≤ (w.nodes r).nextHeight

section

variable (hinj : Function.Injective hash) (h : Refines nodes sent m)

include h

lemma settled_of_rule
    (hrule : ∀ vc, .viewChange vc ∈ sent → vc.nodeID = r → vc.newView ≤ (nodes r).state.viewID) :
    m.Settled r := by
  intro c hc hr
  rw [h.changes] at hc
  obtain ⟨vc, hmem, rfl⟩ := hc
  rw [(h.nodes r).view]
  exact hrule vc hmem hr

/-- The node forgets some of what it knows about durable heights. -/
lemma simulate_forget {s : State} (hview : s.viewID = (nodes r).state.viewID)
    (hlock : ∀ k, (nodes r).committedHeight < k →
      s.prePrepareBySlot.find (s.viewID, k) = (nodes r).state.prePrepareBySlot.find (s.viewID, k))
    (hprepared : ∀ k, s.preparedByHeight.find k = (nodes r).state.preparedByHeight.find k ∨
      k ≤ (nodes r).committedHeight ∧ s.preparedByHeight.find k = none) :
    Followed K careful m (update nodes r { nodes r with state := s }) sent := by
  have hshows := h.nodes r
  refine ⟨m.forget r (fun k => s.prePrepareBySlot.find (s.viewID, k))
    (fun k => (s.preparedByHeight.find k).map fun cert => (cert.view, cert.blockHash)),
    .single (.forget r _ _ ?_ ?_), ?_⟩
  · intro k hk
    rw [hshows.durable] at hk
    rw [hshows.lock, hlock k hk, hview]
  · intro k
    rw [hshows.durable, hshows.prepared]
    exact (hprepared k).imp (fun heq => by rw [heq]) fun hk => ⟨hk.1, by rw [hk.2]; rfl⟩
  · exact h.update (onlyAt_forget _ _)
      ⟨hshows.view.trans hview.symm, hshows.durable, fun k => by simp [forget],
        fun k => by simp [forget]⟩ h.prepares h.commits h.changes

lemma simulate_checkpoint (hinv : NodeInv hash K sent r (nodes r))
    {cp : Checkpoint} {stable : Bool} {cert : CheckpointCertificate}
    (hown : cp.nodeID = (nodes r).nodeID → cp.height ≤ (nodes r).committedHeight)
    (hok : (nodes r).state.acceptCheckpoint cp = .ok (s, stable, count, cert)) :
    Followed K careful m (update nodes r { nodes r with state := s }) sent := by
  rcases acceptCheckpoint_ok hok with rfl | ⟨_, -, -, ⟨vote, hvote, hht⟩, rfl⟩
  · exact ⟨m, .refl, h.still ((h.nodes r).congr rfl rfl rfl rfl)⟩
  have hdur := hinv.checkpoint_le hown hvote hht
  refine simulate_forget h rfl ?_ ?_
  · intro k hk
    have hnle : ¬ k ≤ cp.height := by omega
    simp only [State.pruneStable]
    rw [find_retain_slots, if_neg hnle]
    exact fun slot x hx => StateInv.slotPruned_eq { hinv.state with } hx
  · intro k
    simp only [State.pruneStable, find_retain]
    cases (nodes r).state.preparedByHeight.find k with
    | none => simp
    | some cert =>
      by_cases hk : cp.height < k
      · simp [Option.filter, hk]
      · exact .inr ⟨by omega, by simp [Option.filter, hk]⟩

lemma simulate_durable (hinv : NodeInv hash K sent r (nodes r)) (hne : b.blockHash ≠ "")
    (hpos : b.height ≠ 0) (hdur : b.height ≤ (nodes r).committedHeight) :
    Followed K careful m
      (update nodes r { nodes r with state := (nodes r).state.markDurableCommit b }) sent := by
  simp only [State.markDurableCommit, hne, hpos, or_self, if_false]
  refine simulate_forget h rfl ?_ ?_
  · intro k hk
    have hnle : ¬ k ≤ b.height := by omega
    simp only
    rw [find_retain_slots fun _ _ hfind => hinv.state.slotReleased_eq hfind, if_neg hnle]
  · intro k
    by_cases hk : k = b.height
    · exact .inr ⟨hk ▸ hdur, by simp [find_delete, hk]⟩
    · exact .inl (by simp [find_delete, hk])

lemma simulate_head (hnext : b.height = (nodes r).nextHeight) :
    Followed K careful m (update nodes r ((nodes r).commitHead b)) sent := by
  have hshows := h.nodes r
  refine ⟨m.advance r, .single (.advance r), h.update onlyAt_advance
    ⟨hshows.view, ?_, hshows.lock, hshows.prepared⟩ h.prepares h.commits h.changes⟩
  simp [advance, Node.commitHead, hnext, Node.nextHeight, hshows.durable]

/-! ## Actions -/

section

variable (hinv : StateInv hash K sent (nodes r).state)

include hinv

/-- A prepare quorum that is reached is certified in the abstract machine, unless a certificate of a
later view stays. -/
lemma simulate_acceptPrepare (hok : (nodes r).state.acceptPrepare p = .ok (s, reached, count))
    (hsign : p.nodeID ∈ K.faulty ∨ .prepare p ∈ sent) :
    Followed K careful m (update nodes r { nodes r with state := s }) sent := by
  obtain ⟨hadm, hout⟩ := acceptPrepare_ok hok
  have hshows := h.nodes r
  cases hout with
  | buffered hlock hearly | counted hlock hne =>
    exact ⟨m, .refl, h.still (hshows.congr rfl rfl rfl rfl)⟩
  | reached hlock hne hquor =>
    have hrec := stateInv_recordPrepare hinv hadm hsign hne hlock
    obtain ⟨hfind, hblk⟩ := hinv.locked_block hadm.view_eq hadm.sequence_eq hne hlock
    have hsupp := hrec.prepare_supported hblk hquor
    rcases storePrepared_cases ((nodes r).state.recordPrepare p) _ with
      ⟨_, hs⟩ | ⟨existing, hexisting, hlater, hs⟩
    · rw [hs]
      refine ⟨m.certify r p.height p.blockHash, .single (.certify r _ _ ?_ ?_), ?_⟩
      · rw [hshows.lock]
        exact hfind
      · rw [h.prepares, hshows.view]
        exact hsupp
      · refine h.update (onlyAt_certify _ _) ⟨hshows.view, hshows.durable, hshows.lock,
          fun height => ?_⟩ h.prepares h.commits h.changes
        simp only [certify, update_self, find_put, update_apply]
        split
        · rw [hshows.view, Option.map_some, hadm.view_eq]
        · exact hshows.prepared height
    · rw [hs]
      exact ⟨m, .refl, h.still (hshows.congr rfl rfl rfl rfl)⟩

lemma simulate_votePrepare (hself : p.nodeID = r)
    (hlock : (nodes r).LockedAt p.view p.height p.blockHash)
    (hok : (nodes r).state.acceptPrepare p = .ok (s, reached, count))
    (hht : p.height = (nodes r).nextHeight)
    (hrule : ∀ vc, .viewChange vc ∈ sent → vc.nodeID = r → vc.newView ≤ p.view) :
    Followed K careful m (update nodes r { nodes r with state := s }) (sent ++ [.prepare p]) := by
  have hadm := (acceptPrepare_ok hok).1
  have hshows := h.nodes r
  have hnext : p.height = m.durable r + 1 := by rw [hht, hshows.durable, Node.nextHeight]
  have hfind := hlock.2 hadm.view_eq.symm (hht ▸ Nat.lt_succ_self _)
  have hcast : Core.Step K careful m (m.castPrepare r p.height p.blockHash) := by
    rw [hnext]
    refine .castPrepare r _ (settled_of_rule h (hadm.view_eq ▸ hrule)) ?_
    rw [hshows.lock, ← hnext, ← hadm.view_eq]
    exact hfind
  have hvoted : Refines nodes (sent ++ [.prepare p]) (m.castPrepare r p.height p.blockHash) := by
    refine ⟨fun r' => { h.nodes r' with }, ?_, ?_, ?_⟩
    · rw [sentVotes_append_prepare, castPrepare, h.prepares, hshows.view]
      simp [VoteKind.toVote, prepareKind, hself, hadm.view_eq]
    · rw [sentVotes_append_of_known (k := commitKind) (by simp [commitKind])]
      exact h.commits
    · rw [sentChanges_append_of_known (by simp)]
      exact h.changes
  obtain ⟨m', hsteps, hrefines⟩ : ∃ m', ReflTransGen (Core.Step K careful) _ m' ∧ _ :=
    simulate_acceptPrepare hvoted (hinv.mono (subset_append_left _ _)) hok (.inr (by simp))
  exact ⟨m', .head hcast hsteps, hrefines⟩

lemma simulate_voteCommit (hself : c.nodeID = r)
    (hlock : (nodes r).LockedAt c.view c.height c.blockHash)
    (hprep : (nodes r).PreparedAt c.view c.height)
    (hquor : Core.Supported K (sentVotes prepareKind sent) c.view c.height c.blockHash)
    (hok : (nodes r).state.acceptCommit c = .ok (s, reached, count, b))
    (hht : c.height = (nodes r).nextHeight)
    (hrule : ∀ vc, .viewChange vc ∈ sent → vc.nodeID = r → vc.newView ≤ c.view) :
    Followed K careful m (update nodes r { nodes r with state := s }) (sent ++ [.commit c]) := by
  have hadm := (acceptCommit_ok hok).1
  have hshows := h.nodes r
  have hnext : c.height = m.durable r + 1 := by rw [hht, hshows.durable, Node.nextHeight]
  have hbelow : (nodes r).committedHeight < c.height := hht ▸ Nat.lt_succ_self _
  have hfind := hlock.2 hadm.view_eq.symm hbelow
  rw [hadm.view_eq] at hfind
  have hcast : Core.Step K careful m (m.castCommit r c.height c.blockHash) := by
    rw [hnext]
    refine .castCommit r _ (settled_of_rule h (hadm.view_eq ▸ hrule)) ?_ ?_ ?_
    · rw [hshows.lock, ← hnext]
      exact hfind
    · rwa [h.prepares, hshows.view, ← hnext, ← hadm.view_eq]
    · obtain ⟨cert, hcert, hview⟩ := hprep.2 hadm.view_eq.symm hbelow
      refine ⟨cert.view, ?_, ?_⟩
      · rwa [hshows.view]
      · rw [hshows.prepared, ← hnext, hcert, Option.map_some, hinv.locks.agree _ _ _ hfind hcert]
  refine ⟨_, .single hcast, h.update ⟨fun _ _ => rfl, fun _ _ => rfl, fun _ _ => rfl,
    fun _ _ => rfl⟩ { hshows.acceptCommit hok with } ?_ ?_ ?_⟩
  · rw [sentVotes_append_of_known (k := prepareKind) (by simp [prepareKind])]
    exact h.prepares
  · rw [sentVotes_append_commit, castCommit, h.commits, hshows.view]
    simp [VoteKind.toVote, commitKind, hself, hadm.view_eq]
  · rw [sentChanges_append_of_known (by simp)]
    exact h.changes

/-! ## View changes -/

lemma simulate_buildViewChange {newView height : Nat} (hself : (nodes r).state.nodeID = r)
    (hok : (nodes r).state.buildViewChange newView height = .ok (s, vc))
    (hht : height = (nodes r).nextHeight)
    (hbehind : careful → ∀ r' ∈ K.replicas, r' ∉ K.faulty →
      (nodes r).committedHeight ≤ (nodes r').committedHeight) :
    Followed K careful m (update nodes r { nodes r with state := s })
    (sent ++ [.viewChange vc]) := by
  have hshows := h.nodes r
  obtain ⟨hlt, rfl, hview, htarget, hnode, hprep⟩ := buildViewChange_ok hok
  have hrep :
      m.reports r = {c : Core.Report String | ((nodes r).state.preparedByHeight.find c.height).map
        (fun cert => (cert.view, cert.blockHash)) = some (c.view, c.block) ∧
          c.height ≤ height} := by
    simp only [reports, hshows.prepared, hshows.durable, hht, Node.nextHeight]
  have hannounce : Core.Step K careful m (m.announce r vc.newView vc.toChange.report) := by
    refine .announce r _ _ ?_ ?_ ?_
    · rwa [hshows.view, htarget]
    · rw [hrep, toChange, hprep]
      exact isHighest_highestPrepared hinv _
    · intro hcare r' hr' hcorr
      rw [hshows.durable, (h.nodes r').durable]
      exact hbehind hcare r' hr' hcorr
  refine ⟨_, .single hannounce, h.update ⟨fun _ _ => rfl, fun _ _ => rfl, fun _ _ => rfl,
    fun _ _ => rfl⟩ { hshows.congr rfl rfl rfl rfl with } ?_ ?_ ?_⟩
  · rw [sentVotes_append_of_known (k := prepareKind) (by simp [prepareKind])]
    exact h.prepares
  · rw [sentVotes_append_of_known (k := commitKind) (by simp [commitKind])]
    exact h.commits
  · rw [sentChanges_append_change, announce, h.changes]
    simp [toChange, hnode, hself]

/-! ## New views -/

include hinj

lemma simulate_newView (hr : r ∈ K.replicas) (hcorr : r ∉ K.faulty)
    {b : Option Block} (hok : (nodes r).state.acceptNewView hash nv = .ok (s, b))
    (hgen : ∀ vc ∈ nv.viewChanges, GenuineChange K sent vc)
    (hahead : careful → (nodes r).state.viewID < nv.view →
      ∀ cert ∈ nv.selectedPrepared, cert.height ≤ (nodes r).nextHeight) :
    Followed K careful m (update nodes r { nodes r with state := s }) sent := by
  have hshows := h.nodes r
  rcases acceptNewView_ok hok with ⟨hval, ⟨-, -, rfl⟩ | ⟨hlater, -, rfl⟩⟩
  · -- a NEW-VIEW of the current view changes nothing that is seen
    exact ⟨m, .refl, h.still (hshows.congr rfl rfl rfl rfl)⟩
  · have hinstall : Core.Step K careful m
        (m.install r nv.view (nv.selectedPrepared.map PreparedCertificate.toReport)) := by
      refine .install r _ _ hr hcorr ?_
        (justified_of_validNewView hinj h.prepares h.changes hinv hval hgen) ?_
      · rwa [hshows.view]
      · intro hcare c hc
        obtain ⟨cert, hcert, rfl⟩ := Option.map_eq_some_iff.1 hc
        rw [hshows.durable]
        exact hahead hcare hlater cert hcert
    refine ⟨_, .single hinstall, h.update (onlyAt_install _ _) ?_ h.prepares h.commits h.changes⟩
    rcases hval.selection hinj with ⟨hcert, hblk, -⟩ |
      ⟨cert, b, hcert, hblk, -, hbhash, -, -, ⟨vc, hvc, c, hc, hcseq, hreport⟩, -⟩
    · simp only [State.installNewView, hcert, hblk]
      exact
        { view := by simp [install]
          durable := hshows.durable
          lock := by simp [install]
          prepared := by simp [install] }
    · simp only [State.installNewView, hcert, hblk]
      injection hreport with _ hcheight _
      have hsequence : cert.sequence = cert.height := by
        rw [← hcseq, ((hgen vc hvc).backed c hc).1, hcheight]
      refine
        { view := by simp [install]
          durable := hshows.durable
          lock := fun height => ?_
          prepared := fun height => ?_ }
      · simp only [install, update_self, slotKey, hsequence, find_put,
          Prod.mk.injEq, true_and, PreparedCertificate.toReport, Option.map_some, Option.bind_some,
          find_empty, hbhash, eq_comm]
      · simp only [install, update_self, find_put,
          PreparedCertificate.toReport, Option.map_some, Option.bind_some, find_empty]
        by_cases heq : height = cert.height
        · simp [heq]
        · simp [heq, Ne.symm heq]

end

end

/-! ## Calls -/

variable {w : World} {e : Entry}

/-- A call that keeps the rules is followed by the abstract machine. -/
lemma simulate_action (hinj : Function.Injective hash) (h : Refines w.nodes w.signed m)
    (hinv : NodeInv hash K w.signed r (w.nodes r)) (hr : r ∈ K.replicas) (hcorr : r ∉ K.faulty)
    (hbuilt : ∀ vc, .viewChange vc ∈ w.signed → vc ∈ w.built vc.nodeID)
    (hact : Action hash K w.signed (w.nodes r) e n') (hrules : ByTheRules careful K w r e.1) :
    Followed K careful m (update w.nodes r n') (w.signed ++ e.signed.toList) := by
  have hshows := h.nodes r
  have hnode : (w.nodes r).nodeID = r := hinv.nodeID
  -- most calls are not seen, or send nothing
  have hstill : ∀ {n'}, Shows m r n' → Silent w.signed e.signed.toList →
      Followed K careful m (update w.nodes r n') (w.signed ++ e.signed.toList) :=
    fun hsame hsilent => ⟨m, .refl, h.stutter hsame hsilent⟩
  have hsettled : ∀ {view}, (∀ vc ∈ w.built r, vc.newView ≤ view) →
      ∀ vc, .viewChange vc ∈ w.signed → vc.nodeID = r → vc.newView ≤ view := by
    rintro view hall vc hvc rfl
    exact hall vc (hbuilt vc hvc)
  cases hact with
  | quiet _ _ stage broadcasts hst hht htasks hsigned =>
    refine hstill (hshows.congr (by rw [hst]) hht (by rw [hst]) (by rw [hst])) ?_
    intro m hm
    exact (hsigned m (Option.mem_toList.1 hm)).imp_right .inl
  | lock pre p hval =>
    obtain ⟨hstep, hrefines⟩ : Core.Step K careful m _ ∧ _ := simulate_lock h hinv.state hval
    exact ⟨_, .single hstep, by simpa [Entry.signed] using hrefines⟩
  | prepare p s reached count hsigned hok =>
    simpa [Entry.signed] using simulate_acceptPrepare h hinv.state hok hsigned
  | votePrepare p s reached count hself hne hlock hok =>
    obtain ⟨hht, hrule⟩ := hrules.orderly (acceptPrepare_ok hok).1.view_eq
    exact simulate_votePrepare h hinv.state (hself.trans hnode) hlock hok hht (hsettled hrule)
  | commit c s reached count b hsigned hok =>
    exact hstill (hshows.acceptCommit hok) (by simp [Silent, Entry.signed])
  | voteCommit c s reached count b hself hlock hprep hquor hok =>
    obtain ⟨hht, hrule⟩ := hrules.orderly (acceptCommit_ok hok).1.view_eq
    exact simulate_voteCommit h hinv.state (hself.trans hnode) hlock hprep hquor hok hht
      (hsettled hrule)
  | buildViewChange newView height vc s hok =>
    exact simulate_buildViewChange h hinv.state hnode hok hrules.orderly
      fun hcare => hrules.behind hcare newView height rfl
  | viewChange _ vc s reached count hgen hok hsigned =>
    refine hstill ?_ (by simp [Silent, hsigned])
    rcases (acceptViewChange_ok hok).2.2.2 with rfl | ⟨-, rfl⟩ <;>
      exact hshows.congr rfl rfl rfl rfl
  | newView nv s b hgen hok =>
    simpa [Entry.signed] using simulate_newView hinj h hinv.state hr hcorr hok hgen
      fun hcare => hrules.ahead hcare nv rfl
  | checkpoint _ cp s stable count cert hdur hok hsigned =>
    obtain ⟨m', hsteps, hrefines⟩ : Followed K careful m _ _ := simulate_checkpoint h hinv hdur hok
    have hsilent : Silent w.signed e.signed.toList := fun m hm =>
      .inr (.inr ⟨cp, (hsigned m (Option.mem_toList.1 hm)).1⟩)
    exact ⟨m', hsteps, by simpa using hrefines.stutter (hrefines.nodes r) hsilent⟩
  | catchup cert b s hsigned hok =>
    obtain ⟨-, -, -, -, -, rfl⟩ := acceptCommitCertificate_ok hok
    exact hstill (hshows.congr rfl rfl rfl rfl) silent_nil
  | durable b hne hpos hdur => simpa [Entry.signed] using simulate_durable h hinv hne hpos hdur
  | head b hnext => simpa [Entry.signed] using simulate_head h hnext

lemma decided_supported {sent : List Message} {n : Node} (hinv : NodeInv hash K sent r n)
    (hact : Action hash K sent n e n') {height : Nat} {blockHash : String}
    (hdec : e.decided = some (view, height, blockHash)) :
    Core.Supported K (sentVotes commitKind (sent ++ e.signed.toList)) view height blockHash := by
  have hmono := hinv.state.mono (subset_append_left sent e.signed.toList)
  cases hact with
  | quiet _ _ stage broadcasts hst hht htasks hsigned hnone => simp [hnone] at hdec
  | viewChange _ vc s reached count hgen hok hsigned hnone => simp [hnone] at hdec
  | checkpoint _ cp s stable count cert hdur hok hsigned hnone => simp [hnone] at hdec
  | commit c s reached count b hsigned hok =>
    cases reached with
    | false => cases hdec
    | true =>
      cases hdec
      exact commit_supported hmono hok (hsigned.imp_right (mem_append_left _))
  | voteCommit c s reached count b hself hlock hprep hquor hok =>
    cases reached with
    | false => cases hdec
    | true =>
      cases hdec
      exact commit_supported hmono hok (.inr (by simp [Entry.signed]))
  | catchup cert b s hsigned hok =>
    cases hdec
    have hval := (acceptCommitCertificate_ok hok).1
    refine supported_of_votes (k := commitKind)
      (hinv.state.quorum_eq ▸ hval.quorum_le) hval.nodup ?_
    intro vote hvote
    obtain ⟨hview, -, hht, hhash⟩ := hval.agrees vote hvote
    exact ⟨hinv.state.validators _ (hval.validator vote hvote),
      (hsigned vote hvote).imp_right (mem_append_left _), hview, hht, hhash⟩
  | lock | prepare | votePrepare | buildViewChange | newView | durable | head => cases hdec

end

end ChainLab.Pbft
