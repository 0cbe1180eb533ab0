import ChainLab.Pbft.Safety.NodeInv

/-!
# What a call does to its node

Each call of a handler is an `Action` if it comes with the facts in `Pre`: the messages it takes
from the network carry signatures, and the node's own votes are for blocks that the node has locked
and prepared.  All invariants of a node are one case analysis over the actions.

A handler learns these facts in an earlier call, and the node may have moved on since.  So they are
stated in a way that survives whatever the other handlers do (`Later`): a lock is kept until the
view changes or its height becomes durable.
-/

namespace ChainLab.Pbft

open List GoMap
open State

/-! ## What has been signed -/

/-- Messages that count for nothing on the strength of their own signature. -/
def Message.isOpen : Message → Bool
  | .prePrepare _ | .newView _ | .catchup _ _ _ => true
  | .prepare _ | .commit _ | .viewChange _ | .checkpoint _ => false

/-- The message that is out once a call has returned.  A vote is out when the node's own state has
taken it, and a view change when it has been built, whenever they are sent. -/
def Entry.signed : Entry → Option Message
  | ⟨.votePrepare p, .ok _⟩ => some (.prepare p)
  | ⟨.voteCommit c, .ok _⟩ => some (.commit c)
  | ⟨.buildViewChange _ _, .ok vc⟩ => some (.viewChange vc)
  | ⟨.voteCheckpoint cp, .ok _⟩ => some (.checkpoint cp)
  | ⟨.send m, _⟩ => some m
  | _ => none

def World.signed (w : World) : List Message := w.log.filterMap fun entry => entry.2.signed

lemma World.sent_subset_signed (w : World) : w.sent ⊆ w.signed := by
  intro m hm
  obtain ⟨⟨r, op, res⟩, hmem, heq⟩ := mem_filterMap.1 hm
  refine mem_filterMap.2 ⟨_, hmem, ?_⟩
  cases op <;> simp_all [Entry.message, Entry.signed]

/-! ## Locks and certificates that stay -/

/-- There is a certificate for the height that is not older than the view. -/
def State.Certified (s : State) (height : Nat) : Prop :=
  ∃ cert, s.preparedByHeight.find height = some cert ∧ s.viewID ≤ cert.view

namespace Node

/-- The node has locked a block in a view, unless it has left the view or made the height
durable. -/
def LockedAt (n : Node) (view height : Nat) (blockHash : String) : Prop :=
  view ≤ n.state.viewID ∧ (n.state.viewID = view → n.committedHeight < height →
    n.state.prePrepareBySlot.find (view, height) = some blockHash)

/-- The node has prepared in a view, unless it has left the view or made the height durable. -/
def PreparedAt (n : Node) (view height : Nat) : Prop :=
  view ≤ n.state.viewID ∧
    (n.state.viewID = view → n.committedHeight < height → n.state.Certified height)

/-- What the calls of all handlers of a node keep. -/
structure Later (n n' : Node) : Prop where
  view : n.state.viewID ≤ n'.state.viewID
  height : n.committedHeight ≤ n'.committedHeight
  lock : n'.state.viewID = n.state.viewID → ∀ height blockHash, n'.committedHeight < height →
    n.state.prePrepareBySlot.find (n.state.viewID, height) = some blockHash →
    n'.state.prePrepareBySlot.find (n.state.viewID, height) = some blockHash
  certified : n'.state.viewID = n.state.viewID → ∀ height, n'.committedHeight < height →
    n.state.Certified height → n'.state.Certified height

namespace Later

variable {n n' n'' : Node}

lemma refl (n : Node) : Later n n :=
  ⟨le_rfl, le_rfl, fun _ _ _ _ => id, fun _ _ _ => id⟩

lemma trans (h : Later n n') (h' : Later n' n'') : Later n n'' := by
  have hsame : n''.state.viewID = n.state.viewID →
      n'.state.viewID = n.state.viewID ∧ n''.state.viewID = n'.state.viewID := by
    intro heq
    have := h.view
    have := h'.view
    omega
  refine ⟨h.view.trans h'.view, h.height.trans h'.height, ?_, ?_⟩
  · intro hview height blockHash hht hfind
    obtain ⟨hview', hview''⟩ := hsame hview
    have hmid := h.lock hview' height blockHash (lt_of_le_of_lt h'.height hht) hfind
    rw [← hview'] at hmid ⊢
    exact h'.lock hview'' height blockHash hht hmid
  · intro hview height hht hcert
    obtain ⟨hview', hview''⟩ := hsame hview
    exact h'.certified hview'' height hht
      (h.certified hview' height (lt_of_le_of_lt h'.height hht) hcert)

/-- Nothing that matters has changed. -/
lemma of_eq (hview : n'.state.viewID = n.state.viewID)
    (hht : n.committedHeight ≤ n'.committedHeight)
    (hslots : n'.state.prePrepareBySlot = n.state.prePrepareBySlot)
    (hprep : n'.state.preparedByHeight = n.state.preparedByHeight) : Later n n' where
  view := hview.ge
  height := hht
  lock _ _ _ _ hfind := hslots ▸ hfind
  certified _ _ _ hcert := by rwa [State.Certified, hprep, hview]

end Later

variable {n n' : Node} {view height : Nat} {blockHash : String}

lemma LockedAt.later (h : n.LockedAt view height blockHash) (hlater : Later n n') :
    n'.LockedAt view height blockHash := by
  refine ⟨h.1.trans hlater.view, ?_⟩
  intro hview hht
  have hsame : n.state.viewID = view := le_antisymm (hview ▸ hlater.view) h.1
  have hfind := h.2 hsame (lt_of_le_of_lt hlater.height hht)
  rw [← hsame] at hfind ⊢
  exact hlater.lock (hview.trans hsame.symm) height blockHash hht hfind

lemma PreparedAt.later (h : n.PreparedAt view height) (hlater : Later n n') :
    n'.PreparedAt view height := by
  refine ⟨h.1.trans hlater.view, ?_⟩
  intro hview hht
  have hsame : n.state.viewID = view := le_antisymm (hview ▸ hlater.view) h.1
  exact hlater.certified (hview.trans hsame.symm) height hht
    (h.2 hsame (lt_of_le_of_lt hlater.height hht))

end Node

lemma prepared_of_reached {s s' : State} {p : Prepare} {count : Nat}
    (hok : s.acceptPrepare p = .ok (s', true, count)) :
    p.blockHash ≠ "" ∧ s'.prePrepareBySlot.get (slotKey p.view p.sequence) = p.blockHash ∧
      s'.prepareQuorum ≤ (s'.prepareVotes.get p.blockHash).len ∧
      ∃ cert, s'.preparedByHeight.find p.height = some cert ∧ p.view ≤ cert.view := by
  cases (acceptPrepare_ok hok).2 with
  | reached hlock hne hquor =>
    rcases storePrepared_cases (s.recordPrepare p) _ with ⟨_, hs⟩ | ⟨existing, hfind, hlater, hs⟩
    · rw [hs]
      exact ⟨hne, hlock, hquor, _, find_put_self _ _ _, le_rfl⟩
    · rw [hs]
      exact ⟨hne, hlock, hquor, existing, hfind, hlater.le⟩

/-! ## Actions -/

structure NodeInv (hash : BlockCore → String) (K : Core.Committee String) (sent : List Message)
    (r : String) (n : Node) : Prop where
  state : StateInv hash K sent n.state
  nodeID : n.state.nodeID = r
  /-- The node votes for checkpoints of durable heights only. -/
  checkpoints : ∀ key cp, (n.state.checkpointVotes.get key).find r = some cp →
    cp.height ≤ n.committedHeight
  sentCheckpoints : ∀ cp, .checkpoint cp ∈ sent → cp.nodeID = r → cp.height ≤ n.committedHeight
  tasks : ∀ b ∈ n.commitTasks, b.blockHash ≠ ""

/-- A checkpoint becomes stable with the node's own vote only, which is for a durable height. -/
lemma NodeInv.checkpoint_le {hash : BlockCore → String} {K : Core.Committee String}
    {sent : List Message} {r : String} {n : Node} (h : NodeInv hash K sent r n)
    {cp vote : Checkpoint}
    {key : CheckpointKey} (hdur : cp.nodeID = n.nodeID → cp.height ≤ n.committedHeight)
    (hvote : ((n.state.checkpointVotes.putIn key cp.nodeID cp).get key).find n.state.nodeID =
      some vote) (hht : vote.height = cp.height) : cp.height ≤ n.committedHeight := by
  rw [get_putIn, if_pos rfl, find_put] at hvote
  split at hvote
  · rename_i hnode
    exact hdur hnode.symm
  · rw [h.nodeID] at hvote
    exact hht ▸ h.checkpoints _ _ hvote

/-- A call, what it returns and the node it leaves. -/
inductive Action (hash : BlockCore → String) (K : Core.Committee String) (sent : List Message)
    (n : Node) : Entry → Node → Prop
  | quiet (e : Entry) (n' : Node) (stage : Stage) (broadcasts : GoMap Nat Bool)
      (hstate : n'.state = { n.state with stage := stage, viewChangeBroadcasts := broadcasts })
      (hheight : n'.committedHeight = n.committedHeight)
      (htasks : ∀ b ∈ n'.commitTasks, b ∈ n.commitTasks ∨ b.blockHash ≠ "")
      (hsigned : ∀ m ∈ e.signed, m ∈ sent ∨ m.isOpen = true) (hdecided : e.decided = none) :
      Action hash K sent n e n'
  | lock (pre : PrePrepare) (p : Prepare) (hvalid : ValidPrePrepare hash n.state pre) :
      Action hash K sent n ⟨.onPrePrepare pre, .ok p⟩ { n with state := n.state.lockPrePrepare pre }
  | prepare (p : Prepare) (s : State) (reached : Bool) (count : Nat)
      (hsigned : Signed K.faulty sent (.prepare p))
      (hok : n.state.acceptPrepare p = .ok (s, reached, count)) :
      Action hash K sent n ⟨.acceptPrepare p, .ok (reached, count)⟩ { n with state := s }
  | votePrepare (p : Prepare) (s : State) (reached : Bool) (count : Nat)
      (hself : p.nodeID = n.nodeID) (hne : p.blockHash ≠ "")
      (hlock : n.LockedAt p.view p.height p.blockHash)
      (hok : n.state.acceptPrepare p = .ok (s, reached, count)) :
      Action hash K sent n ⟨.votePrepare p, .ok (reached, count)⟩ { n with state := s }
  | commit (c : Commit) (s : State) (reached : Bool) (count : Nat) (b : Block)
      (hsigned : Signed K.faulty sent (.commit c))
      (hok : n.state.acceptCommit c = .ok (s, reached, count, b)) :
      Action hash K sent n ⟨.acceptCommit c, .ok (reached, count, b)⟩ { n with state := s }
  | voteCommit (c : Commit) (s : State) (reached : Bool) (count : Nat) (b : Block)
      (hself : c.nodeID = n.nodeID) (hlock : n.LockedAt c.view c.height c.blockHash)
      (hprepared : n.PreparedAt c.view c.height)
      (hquorum : Core.Supported K (sentVotes prepareKind sent) c.view c.height c.blockHash)
      (hok : n.state.acceptCommit c = .ok (s, reached, count, b)) :
      Action hash K sent n ⟨.voteCommit c, .ok (reached, count, b)⟩ { n with state := s }
  | buildViewChange (newView height : Nat) (vc : ViewChange) (s : State)
      (hok : n.state.buildViewChange newView height = .ok (s, vc)) :
      Action hash K sent n ⟨.buildViewChange newView height, .ok vc⟩ { n with state := s }
  | viewChange (e : Entry) (vc : ViewChange) (s : State) (reached : Bool) (count : Nat)
      (hgenuine : GenuineChange K sent vc)
      (hok : n.state.acceptViewChange hash vc = .ok (s, reached, count))
      (hsigned : e.signed = none) (hdecided : e.decided = none) :
      Action hash K sent n e { n with state := s }
  | newView (nv : NewView) (s : State) (b : Option Block)
      (hgenuine : ∀ vc ∈ nv.viewChanges, GenuineChange K sent vc)
      (hok : n.state.acceptNewView hash nv = .ok (s, b)) :
      Action hash K sent n ⟨.acceptNewView nv, .ok b⟩ { n with state := s }
  | checkpoint (e : Entry) (cp : Checkpoint) (s : State) (stable : Bool) (count : Nat)
      (cert : CheckpointCertificate) (hdurable : cp.nodeID = n.nodeID →
        cp.height ≤ n.committedHeight)
      (hok : n.state.acceptCheckpoint cp = .ok (s, stable, count, cert))
      (hsigned : ∀ m ∈ e.signed, m = .checkpoint cp ∧ cp.nodeID = n.nodeID)
      (hdecided : e.decided = none) : Action hash K sent n e { n with state := s }
  | catchup (cert : CommitCertificate) (b : Block) (s : State)
      (hsigned : ∀ vote ∈ cert.commits, Signed K.faulty sent (.commit vote))
      (hok : n.state.acceptCommitCertificate hash cert b = .ok s) :
      Action hash K sent n ⟨.acceptCommitCertificate cert b, .ok ()⟩ { n with state := s }
  | durable (b : Block) (hne : b.blockHash ≠ "") (hpos : b.height ≠ 0)
      (hdurable : b.height ≤ n.committedHeight) :
      Action hash K sent n ⟨.markDurableCommit b,
        ()⟩ { n with state := n.state.markDurableCommit b }
  | head (b : Block) (hnext : b.height = n.nextHeight) :
      Action hash K sent n ⟨.commit b, true⟩ (n.commitHead b)

/-- What a handler knows when it makes a call. -/
def Pre (K : Core.Committee String) (sent : List Message) (r : String) (n : Node) : Op → Prop
  | .acceptPrepare p => Signed K.faulty sent (.prepare p)
  | .votePrepare p => p.nodeID = r ∧ p.blockHash ≠ "" ∧ n.LockedAt p.view p.height p.blockHash
  | .acceptCommit c => Signed K.faulty sent (.commit c)
  | .voteCommit c => c.nodeID = r ∧ n.LockedAt c.view c.height c.blockHash ∧
      n.PreparedAt c.view c.height ∧
      Core.Supported K (sentVotes prepareKind sent) c.view c.height c.blockHash
  | .acceptViewChange vc => AuthenticViewChange K.faulty sent vc
  | .voteViewChange vc => GenuineChange K sent vc
  | .acceptNewView nv => Authentic K.faulty sent (.newView nv) ∨
      ∀ vc ∈ nv.viewChanges, GenuineChange K sent vc
  | .acceptCommitCertificate cert _ => ∀ vote ∈ cert.commits, Signed K.faulty sent (.commit vote)
  | .acceptCheckpoint cp => Signed K.faulty sent (.checkpoint cp)
  | .voteCheckpoint cp => cp.nodeID = r ∧ cp.height ≤ n.committedHeight
  | .markDurableCommit b => b.blockHash ≠ "" ∧ b.height ≠ 0 ∧ b.height ≤ n.committedHeight
  | .enqueue b => b.blockHash ≠ ""
  | .send m => m ∈ sent ∨ m.isOpen = true
  | _ => True

section Actions

variable {hash : BlockCore → String} {K : Core.Committee String} {sent : List Message}
  {n n' : Node} {r : String} {e : Entry}

/-- A call that fails or only touches the runtime's own fields. -/
lemma Action.of_same (hst : n'.state = n.state) (hht : n'.committedHeight = n.committedHeight)
    (htasks : ∀ b ∈ n'.commitTasks, b ∈ n.commitTasks ∨ b.blockHash ≠ "")
    (hsigned : ∀ m ∈ e.signed, m ∈ sent ∨ m.isOpen = true) (hdec : e.decided = none) :
    Action hash K sent n e n' :=
  .quiet e n' n.state.stage n.state.viewChangeBroadcasts hst hht htasks hsigned hdec

lemma Action.unchanged (hsigned : e.signed = none) (hdec : e.decided = none) :
    Action hash K sent n e n :=
  .of_same rfl rfl (fun _ => .inl) (by simp [hsigned]) hdec

lemma markViewChangeBroadcast_cases (s : State) (newView : Nat) :
    ∃ broadcasts, (s.markViewChangeBroadcast newView).1 =
      { s with viewChangeBroadcasts := broadcasts } := by
  unfold State.markViewChangeBroadcast
  split
  · exact ⟨s.viewChangeBroadcasts, rfl⟩
  · exact ⟨_, rfl⟩

lemma action_of_pre (h : NodeInv hash K sent r n)
    (hseq : SequencesMatch sent) (hcorr : r ∉ K.faulty) {op : Op} (hpre : Pre K sent r n op) :
    Action hash K sent n ⟨op, (n.exec hash op).1⟩ (n.exec hash op).2 := by
  have hown : ∀ cp : Checkpoint, Signed K.faulty sent (.checkpoint cp) → cp.nodeID = n.nodeID →
      cp.height ≤ n.committedHeight := by
    intro cp hsigned hself
    have hself' : cp.nodeID = r := hself.trans h.nodeID
    exact h.sentCheckpoints cp (hsigned.resolve_left fun hbyz => hcorr (hself' ▸ hbyz)) hself'
  cases op with
  | get | isDuplicatePrePrepare => exact .unchanged rfl rfl
  | setProposal | resetProposal | setTarget =>
    exact .of_same rfl rfl (fun _ => .inl) (by simp [Entry.signed]) rfl
  | send m =>
    refine .of_same rfl rfl (fun _ => .inl) ?_ rfl
    rintro m' ⟨⟩
    exact hpre
  | enqueue b =>
    refine .of_same rfl rfl ?_ (by simp [Entry.signed]) rfl
    intro b' hb'
    rcases mem_cons.1 hb' with rfl | hold
    · exact .inr hpre
    · exact .inl hold
  | markViewChangeBroadcast newView =>
    obtain ⟨broadcasts, hmark⟩ := markViewChangeBroadcast_cases n.state newView
    exact .quiet _ _ n.state.stage broadcasts hmark rfl (fun _ => .inl) (by simp [Entry.signed]) rfl
  | markDurableCommit b => exact .durable b hpre.1 hpre.2.1 hpre.2.2
  | commit b =>
    simp only [Node.exec]
    split
    · rename_i htask
      exact .head b htask.2.1
    · exact .unchanged rfl rfl
  | onPrePrepare pre =>
    cases hok : n.state.onPrePrepare hash pre with
    | error e => simpa only [Node.exec, hok] using .unchanged rfl rfl
    | ok out =>
      obtain ⟨hval, hs, -⟩ := onPrePrepare_eq_ok.1 hok
      simp only [Node.exec, hok, Node.apply, hs]
      exact .lock pre out.2 hval
  | acceptPrepare p =>
    cases hok : n.state.acceptPrepare p with
    | error e => simpa only [Node.exec, hok] using .unchanged rfl rfl
    | ok out => simpa only [Node.exec, hok] using .prepare p out.1 out.2.1 out.2.2 hpre hok
  | votePrepare p =>
    cases hok : n.state.acceptPrepare p with
    | error e => simpa only [Node.exec, hok] using .unchanged rfl rfl
    | ok out =>
      simpa only [Node.exec, hok] using .votePrepare p out.1 out.2.1 out.2.2
        (hpre.1.trans h.nodeID.symm) hpre.2.1 hpre.2.2 hok
  | acceptCommit c =>
    cases hok : n.state.acceptCommit c with
    | error e => simpa only [Node.exec, hok] using .unchanged rfl rfl
    | ok out =>
      simpa only [Node.exec, hok] using .commit c out.1 out.2.1 out.2.2.1 out.2.2.2 hpre hok
  | voteCommit c =>
    cases hok : n.state.acceptCommit c with
    | error e => simpa only [Node.exec, hok] using .unchanged rfl rfl
    | ok out =>
      simpa only [Node.exec, hok] using .voteCommit c out.1 out.2.1 out.2.2.1 out.2.2.2
        (hpre.1.trans h.nodeID.symm) hpre.2.1 hpre.2.2.1 hpre.2.2.2 hok
  | buildViewChange newView height =>
    cases hok : n.state.buildViewChange newView height with
    | error e => simpa only [Node.exec, hok] using .unchanged rfl rfl
    | ok out => simpa only [Node.exec, hok] using .buildViewChange newView height out.2 out.1 hok
  | acceptViewChange vc =>
    cases hok : n.state.acceptViewChange hash vc with
    | error e => simpa only [Node.exec, hok] using .unchanged rfl rfl
    | ok out =>
      have hgen := genuineChange_of_authentic h.state hseq hpre (acceptViewChange_ok hok).2.2.1
      simpa only [Node.exec, hok] using .viewChange _ vc out.1 out.2.1 out.2.2 hgen hok rfl rfl
  | voteViewChange vc =>
    cases hok : n.state.acceptViewChange hash vc with
    | error e => simpa only [Node.exec, hok] using .unchanged rfl rfl
    | ok out =>
      simpa only [Node.exec, hok] using .viewChange _ vc out.1 out.2.1 out.2.2 hpre hok rfl rfl
  | acceptNewView nv =>
    cases hok : n.state.acceptNewView hash nv with
    | error e => simpa only [Node.exec, hok] using .unchanged rfl rfl
    | ok out =>
      have hgen := hpre.elim (genuineChanges_of_newView h.state hseq (acceptNewView_ok hok).1) id
      simpa only [Node.exec, hok] using .newView nv out.1 out.2 hgen hok
  | acceptCommitCertificate cert b =>
    cases hok : n.state.acceptCommitCertificate hash cert b with
    | error e => simpa only [Node.exec, hok] using .unchanged rfl rfl
    | ok s => simpa only [Node.exec, hok] using .catchup cert b s hpre hok
  | acceptCheckpoint cp =>
    cases hok : n.state.acceptCheckpoint cp with
    | error e => simpa only [Node.exec, hok] using .unchanged rfl rfl
    | ok out =>
      simpa only [Node.exec, hok] using .checkpoint _ cp out.1 out.2.1 out.2.2.1 out.2.2.2
        (hown cp hpre) hok (by simp [Entry.signed]) rfl
  | voteCheckpoint cp =>
    cases hok : n.state.acceptCheckpoint cp with
    | error e => simpa only [Node.exec, hok] using .unchanged rfl rfl
    | ok out =>
      simp only [Node.exec, hok, Node.apply]
      refine .checkpoint _ cp out.1 out.2.1 out.2.2.1 out.2.2.2 (fun _ => hpre.2) hok ?_ rfl
      rintro m ⟨⟩
      exact ⟨rfl, hpre.1.trans h.nodeID.symm⟩

/-! ## The invariant of a node -/

lemma stateInv_action (hinj : Function.Injective hash) (h : NodeInv hash K sent r n)
    (hact : Action hash K sent n e n') : StateInv hash K (sent ++ e.signed.toList) n'.state := by
  have hsub : sent ⊆ sent ++ e.signed.toList := subset_append_left _ _
  have hmono := h.state.mono hsub
  cases hact with
  | quiet _ _ stage broadcasts hst =>
    rw [hst]
    exact { hmono with }
  | lock pre p hvalid => exact stateInv_lockPrePrepare hinj hmono hvalid
  | prepare p s reached count hsigned hok =>
    exact stateInv_acceptPrepare hmono hok (hsigned.mono hsub)
  | votePrepare p s reached count hself hne hlock hok =>
    exact stateInv_acceptPrepare hmono hok (.inr (by simp [Entry.signed]))
  | commit c s reached count b hsigned hok =>
    exact stateInv_acceptCommit hmono hok (hsigned.mono hsub)
  | voteCommit c s reached count b hself hlock hprep hquor hok =>
    exact stateInv_acceptCommit hmono hok (.inr (by simp [Entry.signed]))
  | buildViewChange newView height vc s hok =>
    obtain ⟨-, rfl, -⟩ := buildViewChange_ok hok
    exact { hmono with }
  | viewChange _ vc s reached count hgen hok =>
    exact stateInv_acceptViewChange hmono hok (hgen.mono hsub)
  | newView nv s b hgen hok =>
    exact stateInv_acceptNewView hinj hmono hok fun vc hvc => (hgen vc hvc).mono hsub
  | checkpoint _ cp s stable count cert hdur hok => exact stateInv_acceptCheckpoint hmono hok
  | catchup cert b s hsigned hok =>
    obtain ⟨-, -, -, -, -, rfl⟩ := acceptCommitCertificate_ok hok
    exact { hmono with }
  | durable b hne hpos hdur => exact stateInv_markDurableCommit hmono hne hpos
  | head b hnext => exact { hmono with }

variable {key : CheckpointKey} {node : String} {vote : Checkpoint} {m : Message}

lemma acceptCheckpoint_votes {s s' : State} {cp : Checkpoint} {stable : Bool} {count : Nat}
    {cert : CheckpointCertificate} (hok : s.acceptCheckpoint cp = .ok (s', stable, count, cert))
    (hfind : (s'.checkpointVotes.get key).find node = some vote) :
    (s.checkpointVotes.get key).find node = some vote ∨ vote = cp ∧ cp.nodeID = node := by
  have hrecorded : ((s.checkpointVotes.putIn (checkpointKey cp.height cp.blockHash cp.stateRoot)
      cp.nodeID cp).get key).find node = some vote := by
    rcases acceptCheckpoint_ok hok with rfl | ⟨_, -, -, -, rfl⟩
    · exact hfind
    · exact (find_get_retain hfind).1
  obtain ⟨-, hnode, hvote⟩ | hold := of_find_putIn hrecorded
  · exact .inr ⟨hvote, hnode.symm⟩
  · exact .inl hold

/-- Calls other than AcceptCheckpoint leave the identity of the replica and its checkpoint votes. -/
lemma Action.checkpointVotes_cases (hact : Action hash K sent n e n') :
    n'.nodeID = n.nodeID ∧ ∀ key node vote,
      (n'.state.checkpointVotes.get key).find node = some vote →
      (n.state.checkpointVotes.get key).find node = some vote ∨
        vote.nodeID = node ∧ (node = n.nodeID → vote.height ≤ n.committedHeight) := by
  cases hact with
  | quiet _ _ stage broadcasts hst =>
    rw [Node.nodeID, hst]
    exact ⟨rfl, fun _ _ _ => .inl⟩
  | lock | head => exact ⟨rfl, fun _ _ _ => .inl⟩
  | prepare p s reached count _ hok | votePrepare p s reached count _ _ _ hok =>
    obtain ⟨_, _, _, _, _, _, rfl⟩ := acceptPrepare_frame hok
    exact ⟨rfl, fun _ _ _ => .inl⟩
  | commit c s reached count b _ hok | voteCommit c s reached count b _ _ _ _ hok =>
    obtain ⟨_, _, _, _, _, _, rfl⟩ := acceptCommit_frame hok
    exact ⟨rfl, fun _ _ _ => .inl⟩
  | buildViewChange newView height vc s hok =>
    obtain ⟨-, rfl, -⟩ := buildViewChange_ok hok
    exact ⟨rfl, fun _ _ _ => .inl⟩
  | viewChange _ vc s reached count hgen hok =>
    rcases (acceptViewChange_ok hok).2.2.2 with rfl | ⟨-, rfl⟩ <;> exact ⟨rfl, fun _ _ _ => .inl⟩
  | newView nv s b hgen hok =>
    refine ⟨(sameReplica_acceptNewView hok).nodeID, fun key node vote hfind => .inl ?_⟩
    rcases (acceptNewView_ok hok).2 with ⟨-, -, rfl⟩ | ⟨-, -, rfl⟩
    · exact hfind
    · unfold installNewView at hfind
      split at hfind <;> exact hfind
  | checkpoint _ cp s stable count cert hdur hok =>
    refine ⟨?_, fun key node vote hfind => ?_⟩
    · rcases acceptCheckpoint_ok hok with rfl | ⟨_, -, -, -, rfl⟩ <;> rfl
    · rcases acceptCheckpoint_votes hok hfind with hold | ⟨rfl, hnode⟩
      · exact .inl hold
      · exact .inr ⟨hnode, fun hself => hdur (hnode.trans hself)⟩
  | catchup cert b s _ hok =>
    obtain ⟨-, -, -, -, -, rfl⟩ := acceptCommitCertificate_ok hok
    exact ⟨rfl, fun _ _ _ => .inl⟩
  | durable b hne hpos =>
    simp only [markDurableCommit, hne, hpos, or_self, if_false]
    exact ⟨rfl, fun _ _ _ => .inl⟩

/-- What a new message says about its sender. -/
lemma Action.of_signed (hact : Action hash K sent n e n') (hm : e.signed = some m) :
    m ∈ sent ∨ (∀ p, m = .prepare p → p.sequence = p.height) ∧
      ∀ cp, m = .checkpoint cp → cp.nodeID = n.nodeID ∧ cp.height ≤ n.committedHeight := by
  cases hact with
  | quiet _ _ stage broadcasts hst hht htasks hsigned =>
    refine (hsigned m hm).imp_right fun hopen => ?_
    constructor <;> rintro x rfl <;> cases hopen
  | votePrepare p s reached count hself hne hlock hok =>
    cases hm
    exact .inr ⟨fun q hq => by cases hq; exact (acceptPrepare_ok hok).1.sequence_eq, by simp⟩
  | voteCommit | buildViewChange =>
    cases hm
    exact .inr (by simp)
  | viewChange _ vc s reached count hgen hok hsigned =>
    rw [hsigned] at hm
    cases hm
  | checkpoint _ cp s stable count cert hdur hok hsigned =>
    obtain ⟨rfl, hself⟩ := hsigned m hm
    refine .inr ⟨by simp, ?_⟩
    rintro cp' ⟨⟩
    exact ⟨hself, hdur hself⟩
  | lock | prepare | commit | newView | catchup | durable | head => cases hm

/-- A new view change is one that the node itself has built. -/
lemma Action.of_viewChange {vc : ViewChange} (hact : Action hash K sent n e n')
    (hm : e.signed = some (.viewChange vc)) :
    .viewChange vc ∈ sent ∨ e.built = some vc ∧ vc.nodeID = n.nodeID := by
  cases hact with
  | quiet _ _ stage broadcasts hst hht htasks hsigned =>
    exact .inl ((hsigned _ hm).resolve_right (by simp [Message.isOpen]))
  | buildViewChange newView height vc' s hok =>
    cases hm
    exact .inr ⟨rfl, (buildViewChange_ok hok).2.2.2.2.1⟩
  | viewChange _ vc s reached count hgen hok hsigned =>
    rw [hsigned] at hm
    cases hm
  | checkpoint _ cp s stable count cert hdur hok hsigned =>
    cases (hsigned _ hm).1
  | lock | prepare | votePrepare | commit | voteCommit | newView | catchup | durable
    | head => cases hm

lemma sequencesMatch_action (hseq : SequencesMatch sent) (hact : Action hash K sent n e n') :
    SequencesMatch (sent ++ e.signed.toList) := by
  intro p hp
  rcases mem_append.1 hp with hold | hnew
  · exact hseq p hold
  rcases hact.of_signed (Option.mem_toList.1 hnew) with hold | htold
  · exact hseq p hold
  · exact htold.1 p rfl

lemma Action.committedHeight_le (hact : Action hash K sent n e n') :
    n.committedHeight ≤ n'.committedHeight := by
  cases hact with
  | quiet _ _ stage broadcasts hst hht => exact hht.ge
  | head b hnext => simp [Node.commitHead, hnext, Node.nextHeight]
  | _ => exact le_rfl

lemma nodeInv_action (hinj : Function.Injective hash) (h : NodeInv hash K sent r n)
    (hact : Action hash K sent n e n') : NodeInv hash K (sent ++ e.signed.toList) r n' where
  state := stateInv_action hinj h hact
  nodeID := hact.checkpointVotes_cases.1.trans h.nodeID
  checkpoints key cp hfind := by
    refine le_trans ?_ hact.committedHeight_le
    rcases hact.checkpointVotes_cases.2 key r cp hfind with hold | ⟨-, hdur⟩
    · exact h.checkpoints key cp hold
    · exact hdur h.nodeID.symm
  sentCheckpoints cp hcp hnode := by
    refine le_trans ?_ hact.committedHeight_le
    rcases mem_append.1 hcp with hold | hnew
    · exact h.sentCheckpoints cp hold hnode
    rcases hact.of_signed (Option.mem_toList.1 hnew) with hold | htold
    · exact h.sentCheckpoints cp hold hnode
    · exact (htold.2 cp rfl).2
  tasks b hb := by
    cases hact with
    | quiet _ _ stage broadcasts hst hht htasks => exact (htasks b hb).elim (h.tasks b) id
    | _ => exact h.tasks b hb

/-- What the others do does not touch the node, and they sign nothing in its name. -/
lemma NodeInv.of_other {r' : String} {m : Node} (h : NodeInv hash K sent r' m)
    (hact : Action hash K sent n e n') (hne : n.nodeID ≠ r') :
    NodeInv hash K (sent ++ e.signed.toList) r' m where
  state := h.state.mono (subset_append_left _ _)
  __ := h
  sentCheckpoints cp hcp hnode := by
    rcases mem_append.1 hcp with hold | hnew
    · exact h.sentCheckpoints cp hold hnode
    rcases hact.of_signed (Option.mem_toList.1 hnew) with hold | htold
    · exact h.sentCheckpoints cp hold hnode
    · exact absurd ((htold.2 cp rfl).1.symm.trans hnode) hne

/-! ## Locks and certificates stay -/

lemma later_action (h : NodeInv hash K sent r n) (hact : Action hash K sent n e n') :
    n.Later n' := by
  cases hact with
  | quiet _ _ stage broadcasts hst hht =>
    exact .of_eq (by rw [hst]) hht.ge (by rw [hst]) (by rw [hst])
  | lock pre p hvalid =>
    refine ⟨le_rfl, le_rfl, ?_, fun _ _ _ => id⟩
    intro _ height blockHash _ hfind
    obtain ⟨-, b, hb, -⟩ := h.state.locks.slot _ _ hfind
    simp only [lockPrePrepare, replayEarlyVotes, find_put]
    split
    · -- the slot is locked already, so the pre-prepare is for the same block
      rename_i heq
      rw [heq] at hfind
      rcases hvalid.lock with hemp | hsame
      · rw [get_of_find hfind] at hemp
        exact absurd hemp (h.state.locks.block _ _ hb).1
      · rw [get_of_find hfind] at hsame
        rw [hsame]
    · exact hfind
  | prepare p s reached count _ hok | votePrepare p s reached count _ _ _ hok =>
    obtain ⟨hadm, hout⟩ := acceptPrepare_ok hok
    cases hout with
    | buffered | counted => exact .of_eq rfl le_rfl rfl rfl
    | reached =>
      rcases storePrepared_cases (n.state.recordPrepare p) _ with ⟨_, hs⟩ | ⟨_, _, _,
          hs⟩ <;> rw [hs]
      · refine ⟨le_rfl, le_rfl, fun _ _ _ _ => id, ?_⟩
        rintro - height - ⟨cert, hfind, hview⟩
        by_cases hht : height = p.height
        · subst hht
          exact ⟨_, find_put_self _ _ _, hadm.view_eq.ge⟩
        · exact ⟨cert, (find_put_ne _ _ hht).trans hfind, hview⟩
      · exact .of_eq rfl le_rfl rfl rfl
  | commit c s reached count b _ hok | voteCommit c s reached count b _ _ _ _ hok =>
    cases (acceptCommit_ok hok).2 with
    | buffered | counted | reached => exact .of_eq rfl le_rfl rfl rfl
  | buildViewChange newView height vc s hok =>
    obtain ⟨-, rfl, -⟩ := buildViewChange_ok hok
    exact .of_eq rfl le_rfl rfl rfl
  | viewChange _ vc s reached count hgen hok =>
    rcases (acceptViewChange_ok hok).2.2.2 with rfl | ⟨-, rfl⟩ <;> exact .of_eq rfl le_rfl rfl rfl
  | newView nv s b hgen hok =>
    rcases acceptNewView_ok hok with ⟨-, ⟨-, -, rfl⟩ | ⟨hlater, -, rfl⟩⟩
    · exact .of_eq rfl le_rfl rfl rfl
    -- nothing is left to keep in a new view
    have hview : (n.state.installNewView nv).viewID = nv.view := by
      unfold installNewView
      split <;> rfl
    refine ⟨?_, le_rfl, fun hsame => ?_, fun hsame => ?_⟩
    · exact hview ▸ hlater.le
    all_goals
      rw [hview] at hsame
      exact absurd hsame hlater.ne'
  | checkpoint _ cp s stable count cert hdur hok =>
    rcases acceptCheckpoint_ok hok with rfl | ⟨_, -, -, ⟨vote, hvote, hht⟩, rfl⟩
    · exact .of_eq rfl le_rfl rfl rfl
    have hle := h.checkpoint_le hdur hvote hht
    refine ⟨le_rfl, le_rfl, ?_, ?_⟩
    · intro _ height blockHash habove hfind
      have hnle : ¬ height ≤ cp.height := by
        have : n.committedHeight < height := habove
        omega
      simp only [pruneStable]
      rw [find_retain_slots, if_neg hnle]
      · exact hfind
      · exact fun slot x hx => StateInv.slotPruned_eq { h.state with } hx
    · rintro - height habove ⟨cert, hfind, hview⟩
      have hlt : cp.height < height := by
        have : n.committedHeight < height := habove
        omega
      exact ⟨cert, find_retain_eq_some.2 ⟨hfind, by simpa using hlt⟩, hview⟩
  | catchup cert b s _ hok =>
    obtain ⟨-, -, -, -, -, rfl⟩ := acceptCommitCertificate_ok hok
    exact .of_eq rfl le_rfl rfl rfl
  | durable b hne hpos hdur =>
    simp only [markDurableCommit, hne, hpos, or_self, if_false]
    refine ⟨le_rfl, le_rfl, ?_, ?_⟩
    · intro _ height blockHash habove hfind
      have hnle : ¬ height ≤ b.height := by
        have : n.committedHeight < height := habove
        omega
      simp only
      rw [find_retain_slots fun slot x hx => h.state.slotReleased_eq hx, if_neg hnle]
      exact hfind
    · rintro - height habove ⟨cert, hfind, hview⟩
      have hne : height ≠ b.height := by
        have : n.committedHeight < height := habove
        omega
      exact ⟨cert, by simpa [find_delete, hne] using hfind, hview⟩
  | head b hnext => exact .of_eq rfl (by simp [Node.commitHead, hnext, Node.nextHeight]) rfl rfl

end Actions

end ChainLab.Pbft
