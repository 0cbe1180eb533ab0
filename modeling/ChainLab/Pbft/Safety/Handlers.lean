import ChainLab.Pbft.Safety.Refinement

/-!
# The handlers know what they do

Every handler is a safe thread: whatever other handlers of the node do between its calls, each call
comes with the facts in `Pre`, as long as the calls of the run keep the rules.
-/

namespace ChainLab.Pbft

open Function (update update_self update_of_ne)
open Interleave List
open GoMap State

/-! ## The discipline of a network -/

/-- The nodes and what they have signed, with a run of the abstract machine that shows them and a
quorum behind every decision. -/
structure WorldInv (hash : BlockCore → String) (K : Core.Committee String) (careful : Prop)
    (w : World) : Prop where
  simulated : ∃ m, Core.Reachable K careful m ∧ Refines w.nodes w.signed m
  nodes : ∀ r, NodeInv hash K w.signed r (w.nodes r)
  sequences : SequencesMatch w.signed
  built : ∀ vc, .viewChange vc ∈ w.signed → vc ∈ w.built vc.nodeID
  decided : ∀ r view height blockHash, (r, view, height, blockHash) ∈ w.decisions →
    Core.Supported K (sentVotes commitKind w.signed) view height blockHash

/-- What a handler at `r` relies on. -/
structure Rely (r : String) (w w' : World) : Prop where
  node : (w.nodes r).Later (w'.nodes r)
  signed : w.signed ⊆ w'.signed

namespace Rely

variable {r : String} {w w' w'' : World}

lemma refl (r : String) (w : World) : Rely r w w := ⟨.refl _, Subset.refl _⟩

lemma trans (h : Rely r w w') (h' : Rely r w' w'') : Rely r w w'' :=
  ⟨h.node.trans h'.node, fun _ hm => h'.signed (h.signed hm)⟩

end Rely

def discipline (hash : BlockCore → String) (K : Core.Committee String) (careful : Prop) :
    Discipline String World Op where
  rely := Rely
  refl := Rely.refl
  trans := Rely.trans
  inv := WorldInv hash K careful
  pre r w op := r ∈ K.replicas ∧ r ∉ K.faulty ∧ Pre K w.signed r (w.nodes r) op
  cond r w op := ByTheRules careful K w r op

variable {hash : BlockCore → String} {K : Core.Committee String} {careful : Prop} {w w' : World}
  {r : String}

section Exec

variable (op : Op)

@[simp] lemma exec_nodes_self : (w.exec hash r op).2.nodes r = ((w.nodes r).exec hash op).2 := by
  simp [World.exec]

lemma signed_exec : (w.exec hash r op).2.signed =
    w.signed ++ (Entry.signed ⟨op, ((w.nodes r).exec hash op).1⟩).toList := by
  cases h : Entry.signed ⟨op, ((w.nodes r).exec hash op).1⟩ <;>
    simp [World.exec, World.signed, filterMap_append, h]

variable {op}

lemma WorldInv.action (h : WorldInv hash K careful w) (hcorr : r ∉ K.faulty)
    (hpre : Pre K w.signed r (w.nodes r) op) : Action hash K w.signed (w.nodes r)
      ⟨op, ((w.nodes r).exec hash op).1⟩ ((w.nodes r).exec hash op).2 :=
  action_of_pre (h.nodes r) h.sequences hcorr hpre

/-- A call of one handler leaves the others what they rely on. -/
lemma rely_exec (h : WorldInv hash K careful w) (hcorr : r ∉ K.faulty)
    (hpre : Pre K w.signed r (w.nodes r) op) (q : String) : Rely q w (w.exec hash r op).2 := by
  refine ⟨?_, signed_exec op ▸ subset_append_left _ _⟩
  by_cases hq : q = r
  · subst hq
    rw [exec_nodes_self]
    exact later_action (h.nodes q) (h.action hcorr hpre)
  · simp only [World.exec, update_of_ne hq]
    exact .refl _

end Exec

/-! ## Safe calls -/

/-- The thread is safe at the node `r` from the world `w` on, and `Q` holds when it ends. -/
abbrev SafeAt (hash : BlockCore → String) (K : Core.Committee String) (careful : Prop) (r : String)
    {α : Type} (Q : World → α → Prop) (w : World) (t : Handler α) : Prop :=
  Safe (system hash) (discipline hash K careful) r Q w t

section Calls

variable (hr : r ∈ K.replicas) (hcorr : r ∉ K.faulty) {α : Type} {Q : World → α → Prop}
include hr hcorr

lemma safe_call {op : Op} {next : op.Res → Handler α}
    (hpre : ∀ w', Rely r w w' → WorldInv hash K careful w' → Pre K w'.signed r (w'.nodes r) op)
    (hnext : ∀ w' w'', w'' = (w'.exec hash r op).2 → Rely r w w' → Rely r w' w'' →
      WorldInv hash K careful w' → WorldInv hash K careful w'' →
      SafeAt hash K careful r Q w'' (next ((w'.nodes r).exec hash op).1)) :
    SafeAt hash K careful r Q w (call op >>= next) := by
  intro w' hrely hinv
  have hpre' := hpre w' hrely hinv
  exact ⟨⟨hr, hcorr, hpre'⟩, fun _ hinv' => hnext w' _ rfl hrely
    (rely_exec hinv hcorr hpre' r) hinv hinv'⟩

/-- A call of whose outcome nothing more is known. -/
lemma safe_any {op : Op} {next : op.Res → Handler α}
    (hpre : ∀ w', Rely r w w' → WorldInv hash K careful w' → Pre K w'.signed r (w'.nodes r) op)
    (hnext : ∀ w' res, Rely r w w' → SafeAt hash K careful r Q w' (next res)) :
    SafeAt hash K careful r Q w (call op >>= next) :=
  safe_call hr hcorr hpre fun _ _ _ hrely hrely' _ _ => hnext _ _ (hrely.trans hrely')

lemma safe_get {next : Node → Handler α} (hnext : ∀ w', Rely r w w' → WorldInv hash K careful w' →
      SafeAt hash K careful r Q w' (next (w'.nodes r))) :
    SafeAt hash K careful r Q w (call .get >>= next) := by
  refine safe_call hr hcorr (fun _ _ _ => trivial) ?_
  rintro w' w'' rfl hrely hrely' hinv hinv'
  have hsame : (w'.exec hash r .get).2.nodes r = w'.nodes r := by
    rw [exec_nodes_self, Node.exec]
  have := hnext _ (hrely.trans hrely') hinv'
  rwa [hsame] at this

end Calls

/-! ## Votes -/

/-- The node may commit to a block: it has it locked and prepared, with the votes of a quorum. -/
structure Ready (K : Core.Committee String) (r : String) (w : World) (view height : Nat)
    (blockHash : String) : Prop where
  lock : (w.nodes r).LockedAt view height blockHash
  prepared : (w.nodes r).PreparedAt view height
  quorum : Core.Supported K (sentVotes prepareKind w.signed) view height blockHash

lemma Ready.rely {view height : Nat} {blockHash : String} (h : Ready K r w view height blockHash)
    (hrely : Rely r w w') : Ready K r w' view height blockHash :=
  ⟨h.lock.later hrely.node, h.prepared.later hrely.node,
    h.quorum.mono (sentVotes_mono _ hrely.signed)⟩

/-- A vote of the node for a block that it has locked. -/
structure Votable (r : String) (w : World) (p : Prepare) : Prop where
  own : p.nodeID = r
  hash_ne : p.blockHash ≠ ""
  lock : (w.nodes r).LockedAt p.view p.height p.blockHash

lemma Votable.rely {p : Prepare} (h : Votable r w p) (hrely : Rely r w w') : Votable r w' p :=
  { h with lock := h.lock.later hrely.node }

abbrev Ends {α : Type} : World → α → Prop := fun _ _ => True

section Handlers

variable (hr : r ∈ K.replicas) (hcorr : r ∉ K.faulty)
include hr hcorr

lemma safe_last {op : Op} {Q : World → op.Res → Prop}
    (hpre : ∀ w', Rely r w w' → WorldInv hash K careful w' → Pre K w'.signed r (w'.nodes r) op)
    (hQ : ∀ w' res, Rely r w w' → Q w' res) : SafeAt hash K careful r Q w (call op) :=
  safe_any hr hcorr hpre hQ

omit hr hcorr in
lemma ready_of_reached {p : Prepare} {n : Node} {s : State} {count : Nat}
    (hok : n.state.acceptPrepare p = .ok (s, true, count))
    (hnode : w.nodes r = { n with state := s }) (hinv : WorldInv hash K careful w) :
    Ready K r w p.view p.height p.blockHash := by
  have hadm := (acceptPrepare_ok hok).1
  obtain ⟨hne, hslot, hvotes, cert, hcert, hle⟩ := prepared_of_reached hok
  have hview : p.view = s.viewID := by
    obtain ⟨_, _, _, _, _, _, rfl⟩ := acceptPrepare_frame hok
    exact hadm.view_eq
  have hstate : StateInv hash K w.signed s := by
    simpa [hnode] using (hinv.nodes r).state
  obtain ⟨hfind, hblk⟩ := hstate.locked_block hview hadm.sequence_eq hne hslot
  refine ⟨?_, ?_, hview ▸ hstate.prepare_supported hblk hvotes⟩
  · rw [hnode]
    exact ⟨hview.le, fun _ _ => hview ▸ hfind⟩
  · rw [hnode]
    exact ⟨hview.le, fun _ _ => ⟨cert, hcert, hview ▸ hle⟩⟩

lemma safe_enqueueCommitted (b : Block) :
    SafeAt hash K careful r Ends w (Handler.enqueueCommitted b) := by
  unfold Handler.enqueueCommitted
  split
  · trivial
  · rename_i hne
    exact safe_last hr hcorr (fun _ _ _ => hne) fun _ _ _ => trivial

lemma safe_broadcastCommit {c : Commit} (hself : c.nodeID = r)
    (hready : Ready K r w c.view c.height c.blockHash) :
    SafeAt hash K careful r Ends w (Handler.broadcastCommit c) := by
  refine safe_call hr hcorr ?_ ?_
  · intro w' hrely _
    have hready' := hready.rely hrely
    exact ⟨hself, hready'.lock, hready'.prepared, hready'.quorum⟩
  · rintro w' w'' rfl - - - -
    cases hres : ((w'.nodes r).exec hash (.voteCommit c)).1 with
    | error e => trivial
    | ok out =>
      have hout : .commit c ∈ (w'.exec hash r (.voteCommit c)).2.signed := by
        rw [signed_exec, hres]
        simp [Entry.signed]
      refine safe_any hr hcorr (fun w₁ hrely _ => .inl (hrely.signed hout)) ?_
      intro w₁ _ _
      split
      · exact safe_enqueueCommitted hr hcorr _
      · trivial

lemma safe_broadcastPrepare {p : Prepare} (hvote : Votable r w p) :
    SafeAt hash K careful r Ends w (Handler.broadcastPrepare r p) := by
  refine safe_call hr hcorr
    (fun w' hrely _ => ⟨hvote.own, hvote.hash_ne, (hvote.rely hrely).lock⟩) ?_
  rintro w' w'' hw'' - - - hinv
  cases hres : ((w'.nodes r).exec hash (.votePrepare p)).1 with
  | error e => trivial
  | ok out =>
    obtain ⟨s, hok, hnode⟩ := apply_ok hres
    have hout : .prepare p ∈ w''.signed := by
      rw [hw'', signed_exec, hres]
      simp [Entry.signed]
    refine safe_any hr hcorr (fun w₁ hrely _ => .inl (hrely.signed hout)) ?_
    intro w₁ _ hrely
    split
    · rename_i hreached
      have hready := ready_of_reached (by rwa [← hreached] : (w'.nodes r).state.acceptPrepare p =
        .ok (s, true, out.2)) (by rw [hw'', exec_nodes_self]; exact hnode) hinv
      exact safe_broadcastCommit hr hcorr rfl (hready.rely hrely)
    · trivial

lemma safe_handlePrepare {p : Prepare} (hsigned : Signed K.faulty w.signed (.prepare p)) :
    SafeAt hash K careful r Ends w (Handler.handlePrepare r p) := by
  refine safe_call hr hcorr (fun w' hrely _ => hsigned.mono hrely.signed) ?_
  rintro w' w'' hw'' - - - hinv
  cases hres : ((w'.nodes r).exec hash (.acceptPrepare p)).1 with
  | error e => trivial
  | ok out =>
    obtain ⟨s, hok, hnode⟩ := apply_ok hres
    simp only
    split
    · rename_i hreached
      exact safe_broadcastCommit hr hcorr rfl (ready_of_reached (by rwa [← hreached])
        (by rw [hw'', exec_nodes_self]; exact hnode) hinv)
    · trivial

lemma safe_handleCommit {c : Commit} (hsigned : Signed K.faulty w.signed (.commit c)) :
    SafeAt hash K careful r Ends w (Handler.handleCommit c) := by
  refine safe_any hr hcorr (fun w' hrely _ => hsigned.mono hrely.signed) ?_
  intro w' res _
  cases res with
  | error e => trivial
  | ok out =>
    simp only
    split
    · exact safe_enqueueCommitted hr hcorr _
    · trivial

/-! ## Proposals -/

lemma safe_sendCertified {w₀ : World} (hbase : Rely r w₀ w) (height : Nat) (wanted : Block → Bool) :
    SafeAt hash K careful r (fun w' _ => Rely r w₀ w') w
      (Handler.sendCertified hash r height wanted) := by
  refine safe_get hr hcorr fun w₁ hrely₁ _ => ?_
  split
  · refine safe_get hr hcorr fun w₂ hrely₂ _ => ?_
    have hrely := (hbase.trans hrely₁).trans hrely₂
    split
    · simp only
      split
      · split
        · exact safe_any hr hcorr (fun _ _ _ => .inr rfl) fun _ _ hrely₃ => hrely.trans hrely₃
        · exact hrely
      · exact hrely
    · exact hrely
  · exact hbase.trans hrely₁

lemma safe_respondWithCertifiedCommit (pre : PrePrepare) :
    SafeAt hash K careful r (fun w' _ => Rely r w w') w
      (Handler.respondWithCertifiedCommit hash r pre) := by
  refine safe_get hr hcorr fun w₁ hrely₁ _ => ?_
  simp only
  split
  · exact hrely₁
  · exact safe_sendCertified hr hcorr hrely₁ _ _

lemma safe_validatePrePrepare (fromNode : String) (b : Block) :
    SafeAt hash K careful r Ends w (Handler.validatePrePrepare hash fromNode b) :=
  safe_get hr hcorr fun _ _ _ => safe_get hr hcorr fun _ _ _ => safe_get hr hcorr fun _ _ _ =>
    trivial

/-- What OnPrePrepare returns may be sent. -/
lemma safe_onPrePrepare (pre : PrePrepare) :
    SafeAt hash K careful r (fun w' res => ∀ p, res = .ok p → Votable r w' p) w
      (call (.onPrePrepare pre)) := by
  refine safe_call hr hcorr (fun _ _ _ => trivial) ?_
  rintro w' w'' rfl - - hinv - p hres
  obtain ⟨s, hs, hnode⟩ := apply_ok hres
  obtain ⟨hval, rfl, rfl⟩ := onPrePrepare_eq_ok.1 hs
  refine ⟨(hinv.nodes r).nodeID, hval.hash_ne, ?_⟩
  rw [exec_nodes_self]
  refine hnode ▸ ⟨hval.view_eq.le, fun _ _ => ?_⟩
  simp [lockPrePrepare, replayEarlyVotes, slotKey, hval.sequence_eq]

lemma safe_handlePrePrepare (pre : PrePrepare) :
    SafeAt hash K careful r Ends w (Handler.handlePrePrepare hash r pre) := by
  refine safe_bind (safe_respondWithCertifiedCommit hr hcorr pre) fun w₁ handled _ => ?_
  split
  · trivial
  refine safe_get hr hcorr fun w₂ _ _ => ?_
  split
  · rename_i hval
    have hseq := (validatePrePrepare_eq_ok.1 hval).sequence_eq
    refine safe_call hr hcorr (fun _ _ _ => trivial) ?_
    rintro w' w'' hw'' - - - hinv
    split
    · rename_i hdup
      obtain ⟨hne, hslot⟩ : pre.blockHash ≠ "" ∧
          (w'.nodes r).state.prePrepareBySlot.get (slotKey pre.view pre.sequence) =
            pre.blockHash := by
        simpa [Node.exec, isDuplicatePrePrepare] using hdup
      have hnode : w''.nodes r = w'.nodes r := by
        rw [hw'', exec_nodes_self, Node.exec]
      have hfind := (get_eq_iff hne).1 hslot
      rw [← hnode, slotKey, hseq] at hfind
      -- a lock is always one of the current view
      have hview : pre.view = (w''.nodes r).state.viewID :=
        ((hinv.nodes r).state.locks.slot _ _ hfind).1
      exact safe_broadcastPrepare hr hcorr ⟨rfl, hne, hview.le, fun _ _ => hfind⟩
    · refine safe_bind (safe_validatePrePrepare hr hcorr _ _) fun _ accepted _ => ?_
      split
      · refine safe_bind (safe_onPrePrepare hr hcorr pre) fun w₃ res hres => ?_
        cases res with
        | error e => trivial
        | ok p => exact safe_broadcastPrepare hr hcorr (hres p rfl)
      · trivial
  · trivial

lemma safe_broadcastProposal (pre : PrePrepare) {p : Prepare} (hvote : Votable r w p) :
    SafeAt hash K careful r Ends w (Handler.broadcastProposal r pre p) :=
  safe_any hr hcorr (fun _ _ _ => .inr rfl) fun _ _ hrely =>
    safe_broadcastPrepare hr hcorr (hvote.rely hrely)

lemma safe_rebroadcastNewView : SafeAt hash K careful r Ends w Handler.rebroadcastNewView := by
  refine safe_get hr hcorr fun w₁ _ _ => ?_
  simp only
  split
  · refine safe_get hr hcorr fun w₂ _ _ => ?_
    split
    · exact safe_last hr hcorr (fun _ _ _ => .inr rfl) fun _ _ _ => trivial
    · trivial
  · trivial

lemma safe_lockProposal (view : Nat) (b : Block) :
    SafeAt hash K careful r (fun w' res => ∀ p, res = .ok p → Votable r w' p) w
      (Handler.lockProposal r view b) := by
  unfold Handler.lockProposal
  simp only
  split
  · exact safe_bind (safe_rebroadcastNewView hr hcorr) fun _ _ _ => safe_onPrePrepare hr hcorr _
  · exact safe_onPrePrepare hr hcorr _

lemma safe_beginProposal (b : Block) :
    SafeAt hash K careful r Ends w (Handler.beginProposal r b) := by
  refine safe_get hr hcorr fun w₁ _ _ => ?_
  split
  · refine safe_get hr hcorr fun w₂ _ _ => ?_
    refine safe_bind (safe_lockProposal hr hcorr _ b) fun w₃ res hres => ?_
    cases res with
    | error e => trivial
    | ok p =>
      exact safe_any hr hcorr (fun _ _ _ => trivial) fun _ _ hrely =>
        safe_broadcastProposal hr hcorr _ ((hres p rfl).rely hrely)
  · trivial

lemma safe_propose (b : Block) : SafeAt hash K careful r Ends w (Handler.propose r b) := by
  refine safe_get hr hcorr fun w₁ _ _ => ?_
  split
  · refine safe_get hr hcorr fun w₂ _ _ => ?_
    split
    · refine safe_get hr hcorr fun w₃ _ _ => ?_
      split
      · exact safe_beginProposal hr hcorr b
      · trivial
    · trivial
  · trivial

lemma safe_retransmitProposal : SafeAt hash K careful r Ends w (Handler.retransmitProposal r) := by
  refine safe_get hr hcorr fun w₁ _ _ => ?_
  split
  · refine safe_get hr hcorr fun w₂ _ _ => ?_
    split
    · refine safe_get hr hcorr fun w₃ _ _ => ?_
      refine safe_bind (safe_lockProposal hr hcorr _ _) fun w₄ res hres => ?_
      cases res with
      | error e => trivial
      | ok p => exact safe_broadcastProposal hr hcorr _ (hres p rfl)
    · trivial
  · trivial

/-! ## View changes -/

lemma safe_onNewViewAccepted (nv : NewView) (selected : Option Block) :
    SafeAt hash K careful r Ends w (Handler.onNewViewAccepted r nv selected) := by
  refine safe_any hr hcorr (fun _ _ _ => trivial) fun w₁ _ _ => ?_
  split
  · refine safe_get hr hcorr fun w₂ _ _ => ?_
    split
    · refine safe_any hr hcorr (fun _ _ _ => trivial) fun w₃ _ _ => ?_
      refine safe_bind (safe_onPrePrepare hr hcorr _) fun w₄ res hres => ?_
      cases res with
      | error e => trivial
      | ok p => exact safe_broadcastProposal hr hcorr _ (hres p rfl)
    · trivial
  · trivial

lemma safe_handleNewView {nv : NewView} (hauth : Authentic K.faulty w.signed (.newView nv)) :
    SafeAt hash K careful r Ends w (Handler.handleNewView r nv) := by
  refine safe_any hr hcorr (fun _ hrely _ => .inl (hauth.mono hrely.signed)) fun w₁ res _ => ?_
  cases res with
  | error e => trivial
  | ok selected => exact safe_onNewViewAccepted hr hcorr nv selected

lemma safe_broadcastNewView (newView height : Nat) :
    SafeAt hash K careful r Ends w (Handler.broadcastNewView r newView height) := by
  refine safe_get hr hcorr fun w₁ _ hinv => ?_
  split
  · rename_i nv hbuild
    obtain ⟨-, -, -, hchg⟩ := buildNewView_ok hbuild
    have hgen : ∀ vc ∈ nv.viewChanges, GenuineChange K w₁.signed vc := by
      intro vc hvc
      rw [hchg, mem_sortedValues] at hvc
      obtain ⟨node, hfind⟩ := hvc
      exact ((hinv.nodes r).state.changes _ _ _ hfind).2.2
    refine safe_any hr hcorr (fun _ hrely _ => .inr fun vc hvc => (hgen vc hvc).mono hrely.signed)
      fun w₂ res _ => ?_
    cases res with
    | error e => trivial
    | ok selected =>
      exact safe_any hr hcorr (fun _ _ _ => .inr rfl) fun _ _ _ =>
        safe_onNewViewAccepted hr hcorr nv selected
  · trivial

lemma safe_leadNewView (reached : Bool) (newView height : Nat) :
    SafeAt hash K careful r Ends w (Handler.leadNewView r reached newView height) := by
  unfold Handler.leadNewView
  split
  · refine safe_get hr hcorr fun w₁ _ _ => ?_
    split
    · exact safe_broadcastNewView hr hcorr newView height
    · trivial
  · trivial

/-- A view change that is built has been signed by the node and reports what a quorum prepared. -/
lemma safe_buildViewChange (newView height : Nat) :
    SafeAt hash K careful r (fun w' res => ∀ vc, res = .ok vc →
      .viewChange vc ∈ w'.signed ∧ GenuineChange K w'.signed vc) w
      (call (.buildViewChange newView height)) := by
  refine safe_call hr hcorr (fun _ _ _ => trivial) ?_
  rintro w' w'' hw'' - hrely hinv - vc hres
  obtain ⟨s, hs, -⟩ := apply_ok hres
  obtain ⟨-, -, -, -, -, hprep⟩ := buildViewChange_ok hs
  have hout : .viewChange vc ∈ w''.signed := by
    rw [hw'', signed_exec, hres]
    simp [Entry.signed]
  exact ⟨hout, genuineChange_own ((hinv.nodes r).state.mono hrely.signed) hprep hout⟩

lemma safe_initiateViewChange (newView : Nat) :
    SafeAt hash K careful r Ends w (Handler.initiateViewChange r newView) := by
  refine safe_get hr hcorr fun w₁ _ _ => ?_
  split
  · refine safe_get hr hcorr fun w₂ _ _ => ?_
    refine safe_bind (safe_buildViewChange hr hcorr newView _) fun w₃ res hres => ?_
    cases res with
    | error e => trivial
    | ok vc =>
      obtain ⟨hout, hgen⟩ := hres vc rfl
      refine safe_any hr hcorr (fun _ _ _ => trivial) fun w₄ marked hrely₄ => ?_
      split
      · refine safe_any hr hcorr (fun _ _ _ => trivial) fun w₅ _ hrely₅ => ?_
        have hrely := hrely₄.trans hrely₅
        refine safe_any hr hcorr (fun w₆ hrely₆ _ => hgen.mono (hrely.trans hrely₆).signed)
          fun w₆ res hrely₆ => ?_
        have hrely := hrely.trans hrely₆
        cases res with
        | error e => trivial
        | ok out =>
          exact safe_any hr hcorr (fun w₇ hrely₇ _ => .inl ((hrely.trans hrely₇).signed hout))
            fun w₇ _ _ => safe_leadNewView hr hcorr _ _ _
      · trivial
  · trivial

lemma safe_rebroadcastViewChange :
    SafeAt hash K careful r Ends w Handler.rebroadcastViewChange := by
  refine safe_get hr hcorr fun w₁ _ _ => safe_get hr hcorr fun w₂ _ _ =>
    safe_get hr hcorr fun w₃ _ _ => ?_
  split
  · refine safe_bind (safe_buildViewChange hr hcorr _ _) fun w₄ res hres => ?_
    cases res with
    | error e => trivial
    | ok vc =>
      obtain ⟨hout, hgen⟩ := hres vc rfl
      refine safe_any hr hcorr (fun w₅ hrely _ => hgen.mono hrely.signed) fun w₅ res hrely => ?_
      cases res with
      | error e => trivial
      | ok out =>
        exact safe_last hr hcorr (fun w₆ hrely' _ => .inl ((hrely.trans hrely').signed hout))
          fun _ _ _ => trivial
  · trivial

lemma safe_handleViewChange {vc : ViewChange} (hauth : AuthenticViewChange K.faulty w.signed vc) :
    SafeAt hash K careful r Ends w (Handler.handleViewChange r vc) := by
  refine safe_any hr hcorr (fun _ hrely _ => hauth.mono hrely.signed) fun w₁ res _ => ?_
  cases res with
  | error e => trivial
  | ok out =>
    refine safe_get hr hcorr fun w₂ _ _ => ?_
    simp only
    split
    · exact safe_bind (safe_initiateViewChange hr hcorr vc.newView) fun _ _ _ =>
        safe_leadNewView hr hcorr _ _ _
    · exact safe_leadNewView hr hcorr _ _ _

/-! ## Commits, checkpoints and catch-up -/

lemma safe_handleCatchup (source : String) {cert : CommitCertificate} {b : Block}
    (hauth : ∀ vote ∈ cert.commits, Signed K.faulty w.signed (.commit vote)) :
    SafeAt hash K careful r Ends w (Handler.handleCatchup source cert b) := by
  refine safe_get hr hcorr fun w₁ hrely₁ _ => ?_
  split
  · refine safe_get hr hcorr fun w₂ hrely₂ _ => ?_
    have hrely := hrely₁.trans hrely₂
    split
    · refine safe_any hr hcorr (fun w₃ hrely₃ _ vote hvote =>
        (hauth vote hvote).mono (hrely.trans hrely₃).signed) fun w₃ res _ => ?_
      cases res with
      | error e => trivial
      | ok out =>
        simp only
        split
        · trivial
        · exact safe_enqueueCommitted hr hcorr b
    · trivial
  · trivial

lemma safe_commitDurable (b : Block) (stateRoot : String) :
    SafeAt hash K careful r Ends w (Handler.commitDurable b stateRoot) := by
  refine safe_call hr hcorr (fun _ _ _ => trivial) ?_
  rintro w' w'' hw'' - - hinv -
  split
  · rename_i hcommit
    -- from here on the height is durable
    obtain ⟨⟨htask, hnext, -⟩, hhead⟩ : (b ∈ (w'.nodes r).commitTasks ∧ (w'.nodes r).Extends b) ∧
        w''.nodes r = (w'.nodes r).commitHead b := by
      rw [hw'', exec_nodes_self]
      simp only [Node.exec] at hcommit ⊢
      split at hcommit
      · rename_i h
        exact ⟨h, by rw [if_pos h]⟩
      · cases hcommit
    have hne := (hinv.nodes r).tasks b htask
    have hpos : b.height ≠ 0 := by simp [hnext, Node.nextHeight]
    have hdur : b.height ≤ (w''.nodes r).committedHeight := by
      rw [hhead]
      exact le_rfl
    refine safe_any hr hcorr (fun w₁ hrely _ => ⟨hne, hpos, hdur.trans hrely.node.height⟩)
      fun w₁ _ hrely₁ => ?_
    refine safe_get hr hcorr fun w₂ hrely₂ _ => ?_
    split
    · refine safe_get hr hcorr fun w₃ hrely₃ hinv₃ => ?_
      have hrely := (hrely₁.trans hrely₂).trans hrely₃
      have hself : (w₃.nodes r).state.nodeID = r := (hinv₃.nodes r).nodeID
      refine safe_call hr hcorr (fun w₄ hrely₄ _ =>
        ⟨hself, hdur.trans (hrely.trans hrely₄).node.height⟩) ?_
      rintro w₄ w₅ hw₅ - - - -
      generalize (w₃.nodes r).state.buildCheckpoint b.height b.blockHash stateRoot = checkpoint
        at hw₅ ⊢
      cases hres : ((w₄.nodes r).exec hash (.voteCheckpoint checkpoint)).1 with
      | error e => trivial
      | ok out =>
        refine safe_last hr hcorr (fun w₆ hrely₆ _ => .inl (hrely₆.signed ?_)) fun _ _ _ => trivial
        rw [hw₅, signed_exec, hres]
        simp [Entry.signed]
    · trivial
  · trivial

/-- Every handler is safe, whatever the event, as long as the message it is for carries
signatures. -/
lemma safe_handle {e : Event} (hverifies : e.Verifies K.faulty w.signed) :
    SafeAt hash K careful r Ends w (handle hash r e) := by
  cases e with
  | deliver m =>
    cases m with
    | prePrepare pre => exact safe_handlePrePrepare hr hcorr pre
    | prepare p => exact safe_handlePrepare hr hcorr hverifies
    | commit c => exact safe_handleCommit hr hcorr hverifies
    | viewChange vc => exact safe_handleViewChange hr hcorr hverifies
    | newView nv => exact safe_handleNewView hr hcorr hverifies
    | checkpoint cp =>
      exact safe_any hr hcorr (fun _ hrely _ => Signed.mono hverifies hrely.signed) fun _ _ _ =>
        trivial
    | catchup source cert b => exact safe_handleCatchup hr hcorr source hverifies
  | propose b => exact safe_propose hr hcorr b
  | retransmit => exact safe_retransmitProposal hr hcorr
  | timeout newView => exact safe_initiateViewChange hr hcorr newView
  | rebroadcastViewChange => exact safe_rebroadcastViewChange hr hcorr
  | serveCatchup height =>
    exact safe_bind (safe_sendCertified hr hcorr (.refl r w) height _) fun _ _ _ => trivial
  | commitDurable b stateRoot => exact safe_commitDurable hr hcorr b stateRoot

end Handlers

end ChainLab.Pbft
