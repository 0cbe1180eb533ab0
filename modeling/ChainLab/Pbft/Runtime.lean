import ChainLab.Data.Interleave
import ChainLab.Pbft.Spec

/-!
# The consensus handlers of a node

`executor/v5/runtime_pbft.go`: what a node does with each PBFT message, with its timers, and when a
decided block is to become durable.  A handler is a thread: every call of the replica state, every
look at the runtime's fields under their mutex and every broadcast is one call of it, and the
handlers of a node run side by side, so anything may happen between two of them.

* Losing, repeating and reordering messages is a matter of which `deliver` events happen; a deferred
  pre-prepare that is replayed is one that is delivered again.
* An error ends its handler.  Checks that only look at a block's body or plan can reject a proposal
  locally, which is no different from losing the message; they are left out, as are the Porygon
  pipeline, the unauthenticated commit form of a shard with a single validator, and metrics.
* `commitWithOrigin` runs under a mutex of its own.  The model does without it, so that here even
  two commits of one node may overlap.
-/

namespace ChainLab.Pbft

open Interleave

inductive Message where
  | prePrepare (msg : PrePrepare)
  | prepare (msg : Prepare)
  | commit (msg : Commit)
  | viewChange (msg : ViewChange)
  | newView (msg : NewView)
  | checkpoint (msg : Checkpoint)
  | catchup (source : String) (cert : CommitCertificate) (b : Block)
deriving DecidableEq

/-- The runtime's own fields next to its replica state. -/
structure Node where
  state : State
  shardID : String
  committedHeight : Nat := 0
  committedHash : String := "genesis"
  store : GoMap Nat Block := ∅
  commitTasks : List Block := []
  proposalInFlight : Option Block := none
  viewChangeTarget : Nat := 0

namespace Node

def new (shardID nodeID leaderID : String) (validators : List String) : Node where
  state := State.new nodeID leaderID validators
  shardID := shardID

def nodeID (n : Node) : String := n.state.nodeID

/-- `porygonConsensusNextHeight` without the pipeline: the height after the durable one. -/
def nextHeight (n : Node) : Nat := n.committedHeight + 1

/-- `pbftAllowsCarriedProposal`. -/
def allowsCarriedProposal (n : Node) (b : Block) : Bool :=
  b.blockHash ≠ "" && (n.state.preparedByHeight.find b.height).any (fun cert =>
    cert.blockHash = b.blockHash) && (n.state.preparedBlocks.get b.height).blockHash = b.blockHash

/-- A block that follows the durable head. -/
def Extends (n : Node) (b : Block) : Prop :=
  b.height = n.nextHeight ∧ b.previousHash = n.committedHash

instance (n : Node) (b : Block) : Decidable (n.Extends b) := inferInstanceAs (Decidable (_ ∧ _))

/-- The section of `commitOnce` that moves the durable head, once the block is stored. -/
def commitHead (n : Node) (b : Block) : Node :=
  { n with
    committedHeight := b.height
    committedHash := b.blockHash
    store := n.store.put b.height b
    proposalInFlight := if n.proposalInFlight.map Block.blockHash = some b.blockHash
      then none else n.proposalInFlight }

end Node

/-! ## Calls -/

/-- What a handler does in one step.  The calls that start with `vote` are those of the state's
`Accept` functions with a message that the node has just signed itself. -/
inductive Op where
  /-- Any call that only reads: the handler sees the node as it is at that moment. -/
  | get
  | isDuplicatePrePrepare (view sequence : Nat) (blockHash : String)
  | onPrePrepare (pre : PrePrepare)
  | acceptPrepare (msg : Prepare)
  | votePrepare (msg : Prepare)
  | acceptCommit (msg : Commit)
  | voteCommit (msg : Commit)
  | buildViewChange (newView height : Nat)
  | markViewChangeBroadcast (newView : Nat)
  | acceptViewChange (vc : ViewChange)
  | voteViewChange (vc : ViewChange)
  | acceptNewView (nv : NewView)
  | acceptCommitCertificate (cert : CommitCertificate) (b : Block)
  | acceptCheckpoint (msg : Checkpoint)
  | voteCheckpoint (msg : Checkpoint)
  | markDurableCommit (b : Block)
  | commit (b : Block)
  | enqueue (b : Block)
  | setProposal (b : Block)
  | resetProposal
  | setTarget (newView : Nat)
  | send (m : Message)

/-- What a call returns, next to the state that it leaves. -/
@[reducible] def Op.Res : Op → Type
  | .get => Node
  | .isDuplicatePrePrepare _ _ _ => Bool
  | .onPrePrepare _ => Except String Prepare
  | .acceptPrepare _ => Except String (Bool × Nat)
  | .votePrepare _ => Except String (Bool × Nat)
  | .acceptCommit _ => Except String (Bool × Nat × Block)
  | .voteCommit _ => Except String (Bool × Nat × Block)
  | .buildViewChange _ _ => Except String ViewChange
  | .markViewChangeBroadcast _ => Bool
  | .acceptViewChange _ => Except String (Bool × Nat)
  | .voteViewChange _ => Except String (Bool × Nat)
  | .acceptNewView _ => Except String (Option Block)
  | .acceptCommitCertificate _ _ => Except String Unit
  | .acceptCheckpoint _ => Except String (Bool × Nat × CheckpointCertificate)
  | .voteCheckpoint _ => Except String (Bool × Nat × CheckpointCertificate)
  | .commit _ => Bool
  | .markDurableCommit _ | .enqueue _ | .setProposal _ | .resetProposal | .setTarget _ | .send _ =>
    Unit

namespace Node

/-- The node after a call of its state that may fail. -/
def apply {α : Type} (n : Node) : Except String (State × α) → Except String α × Node
  | .ok (s, a) => (.ok a, { n with state := s })
  | .error e => (.error e, n)

/-- One call. -/
def exec (hash : BlockCore → String) (n : Node) : (op : Op) → op.Res × Node
  | .get => (n, n)
  | .isDuplicatePrePrepare view sequence blockHash =>
    (n.state.isDuplicatePrePrepare view sequence blockHash, n)
  | .onPrePrepare pre => n.apply (n.state.onPrePrepare hash pre)
  | .acceptPrepare msg => n.apply (n.state.acceptPrepare msg)
  | .votePrepare msg => n.apply (n.state.acceptPrepare msg)
  | .acceptCommit msg => n.apply (n.state.acceptCommit msg)
  | .voteCommit msg => n.apply (n.state.acceptCommit msg)
  | .buildViewChange newView height => n.apply (n.state.buildViewChange newView height)
  | .markViewChangeBroadcast newView =>
    ((n.state.markViewChangeBroadcast newView).2,
      { n with state := (n.state.markViewChangeBroadcast newView).1 })
  | .acceptViewChange vc => n.apply (n.state.acceptViewChange hash vc)
  | .voteViewChange vc => n.apply (n.state.acceptViewChange hash vc)
  | .acceptNewView nv => n.apply (n.state.acceptNewView hash nv)
  | .acceptCommitCertificate cert b =>
    n.apply ((n.state.acceptCommitCertificate hash cert b).map fun s => (s, ()))
  | .acceptCheckpoint msg => n.apply (n.state.acceptCheckpoint msg)
  | .voteCheckpoint msg => n.apply (n.state.acceptCheckpoint msg)
  | .markDurableCommit b => ((), { n with state := n.state.markDurableCommit b })
  | .commit b =>
    if b ∈ n.commitTasks ∧ n.Extends b then (true, n.commitHead b) else (false, n)
  | .enqueue b => ((), { n with commitTasks := b :: n.commitTasks })
  | .setProposal b => ((), { n with proposalInFlight := some b })
  | .resetProposal => ((), { n with proposalInFlight := none, viewChangeTarget := 0 })
  | .setTarget newView => ((), { n with viewChangeTarget := newView })
  | .send _ => ((), n)

end Node

/-- What a call of the state has returned, if it succeeded. -/
lemma apply_ok {α : Type} {n : Node} {x : Except String (State × α)} {a : α}
    (h : (n.apply x).1 = .ok a) : ∃ s, x = .ok (s, a) ∧ (n.apply x).2 = { n with state := s } := by
  cases x with
  | error e => cases h
  | ok out =>
    cases h
    exact ⟨out.1, rfl, rfl⟩

abbrev Handler := Thread Op Op.Res

def call (op : Op) : Handler op.Res := Thread.make op

/-! ## Votes -/

namespace Handler

section

variable (hash : BlockCore → String) (self : String)

def enqueueCommitted (b : Block) : Handler Unit :=
  if b.blockHash = "" then pure () else call (.enqueue b)

def broadcastCommit (commit : Commit) : Handler Unit := do
  let .ok (reached, _, b) ← call (.voteCommit commit) | pure ()
  call (.send (.commit commit))
  if reached then enqueueCommitted b

/-- A prepare quorum was reached: the node commits to the block. -/
def onPrepared (msg : Prepare) : Handler Unit :=
  broadcastCommit
    { view := msg.view, sequence := msg.sequence, height := msg.height, nodeID := self,
      blockHash := msg.blockHash }

def broadcastPrepare (prepare : Prepare) : Handler Unit := do
  let .ok (reached, _) ← call (.votePrepare prepare) | pure ()
  call (.send (.prepare prepare))
  if reached then onPrepared self prepare

def handlePrepare (prepare : Prepare) : Handler Unit := do
  let .ok (reached, _) ← call (.acceptPrepare prepare) | pure ()
  if reached then onPrepared self prepare

def handleCommit (commit : Commit) : Handler Unit := do
  let .ok (reached, _, b) ← call (.acceptCommit commit) | pure ()
  if reached then enqueueCommitted b

/-! ## Proposals -/

/-- The runtime's own check of a proposal, beyond that of the replica state. -/
def validatePrePrepare (fromNode : String) (b : Block) : Handler Bool := do
  let leader := (← call .get).state.leaderID
  let carried := (← call .get).allowsCarriedProposal b
  let n ← call .get
  return leader ≠ "" && fromNode = leader && (b.proposerID = leader || carried) &&
    b.shardID = n.shardID && b.blockHash ≠ "" && hash b.toBlockCore = b.blockHash && n.Extends b

/-- `sendCertifiedCatchupBlock`, for the stored block of a height and its commit certificate. -/
def sendCertified (height : Nat) (wanted : Block → Bool) : Handler Bool := do
  let some b := (← call .get).store.find height | pure false
  let some cert := (← call .get).state.commitCertificates.find height | pure false
  if b.blockHash = cert.blockHash ∧ wanted b then
    if hash b.toBlockCore = b.blockHash ∧ cert.height = b.height then
      call (.send (.catchup self cert b))
    return true
  else return false

/-- A proposal for a height that is durable here is answered with the commit certificate. -/
def respondWithCertifiedCommit (pre : PrePrepare) : Handler Bool := do
  let committedHeight := (← call .get).committedHeight
  if pre.height = 0 ∨ committedHeight < pre.height ∨ pre.leaderID = "" ∨ pre.leaderID = self then
    return false
  else sendCertified hash self pre.height fun b => b.blockHash = pre.blockHash

def handlePrePrepare (pre : PrePrepare) : Handler Unit := do
  if ← respondWithCertifiedCommit hash self pre then pure ()
  else
    let .ok () := (← call .get).state.validatePrePrepare hash pre | pure ()
    if ← call (.isDuplicatePrePrepare pre.view pre.sequence pre.blockHash) then
      -- A retransmission is answered with PREPARE again, whatever the height is.
      broadcastPrepare self
        { view := pre.view, sequence := pre.sequence, height := pre.height, nodeID := self,
          blockHash := pre.blockHash }
    else if ← validatePrePrepare hash pre.leaderID pre.block then
      let .ok prepare ← call (.onPrePrepare pre) | pure ()
      broadcastPrepare self prepare

/-- Send the pre-prepare of a block that is locked, and vote for it. -/
def broadcastProposal (pre : PrePrepare) (prepare : Prepare) : Handler Unit := do
  call (.send (.prePrepare pre))
  broadcastPrepare self prepare

def rebroadcastNewView : Handler Unit := do
  let view := (← call .get).state.viewID
  if view ≠ 0 then
    let some nv := (← call .get).state.acceptedNewViews.find view | pure ()
    call (.send (.newView nv))

/-- Lock a block as primary of a view, after a reminder of the NEW-VIEW that installed it. -/
def lockProposal (view : Nat) (b : Block) : Handler (Except String Prepare) := do
  if 0 < view then rebroadcastNewView
  call (.onPrePrepare (.ofBlock view self b))

def beginProposal (b : Block) : Handler Unit := do
  if (← call .get).state.leaderID = self then
    let view := (← call .get).state.viewID
    let .ok prepare ← lockProposal self view b | pure ()
    call (.setProposal b)
    broadcastProposal self (.ofBlock view self b) prepare

/-- `propose`, for the block `b` that the producer builds on the durable head. -/
def propose (b : Block) : Handler Unit := do
  if (← call .get).state.leaderID = self then
    if (← call .get).state.stage ≠ .viewChange then
      let n ← call .get
      if n.proposalInFlight = none ∧ n.Extends b ∧ b.proposerID = self ∧ b.shardID = n.shardID then
        beginProposal self b

def retransmitProposal : Handler Unit := do
  if (← call .get).state.leaderID = self then
    let some b := (← call .get).proposalInFlight | pure ()
    let view := (← call .get).state.viewID
    let .ok prepare ← lockProposal self view b | pure ()
    broadcastProposal self (.ofBlock view self b) prepare

/-! ## View changes -/

def onNewViewAccepted (nv : NewView) (selected : Option Block) : Handler Unit := do
  call .resetProposal
  let some b := selected | pure ()
  if (← call .get).state.leaderID = self then
    call (.setProposal b)
    let .ok prepare ← call (.onPrePrepare (.ofBlock nv.view self b)) | pure ()
    broadcastProposal self (.ofBlock nv.view self b) prepare

def broadcastNewView (newView height : Nat) : Handler Unit := do
  let .ok nv := (← call .get).state.buildNewView newView height | pure ()
  let .ok selected ← call (.acceptNewView nv) | pure ()
  call (.send (.newView nv))
  onNewViewAccepted self nv selected

def handleNewView (nv : NewView) : Handler Unit := do
  let .ok selected ← call (.acceptNewView nv) | pure ()
  onNewViewAccepted self nv selected

/-- The node leads the view it has a quorum of view changes for. -/
def leadNewView (reached : Bool) (newView height : Nat) : Handler Unit := do
  if reached then
    if (← call .get).state.leaderForView newView = self then broadcastNewView self newView height

def initiateViewChange (newView : Nat) : Handler Unit := do
  if (← call .get).state.viewID < newView then
    let height := (← call .get).nextHeight
    let .ok vc ← call (.buildViewChange newView height) | pure ()
    if ← call (.markViewChangeBroadcast newView) then
      call (.setTarget newView)
      let .ok (reached, _) ← call (.voteViewChange vc) | pure ()
      call (.send (.viewChange vc))
      leadNewView self reached newView height

def rebroadcastViewChange : Handler Unit := do
  let target := (← call .get).viewChangeTarget
  let height := (← call .get).nextHeight
  if (← call .get).state.viewID < target then
    let .ok vc ← call (.buildViewChange target height) | pure ()
    let .ok _ ← call (.voteViewChange vc) | pure ()
    call (.send (.viewChange vc))

def handleViewChange (vc : ViewChange) : Handler Unit := do
  let .ok (reached, count) ← call (.acceptViewChange vc) | pure ()
  let n ← call .get
  -- f+1 view changes are reason enough to join them
  if faultTolerance n.state.validatorSet.length + 1 ≤ count ∧
      ¬ n.state.hasViewChangeFrom vc.newView self then
    initiateViewChange self vc.newView
  leadNewView self reached vc.newView vc.height

/-! ## Commits, checkpoints and catch-up -/

def handleCheckpoint (msg : Checkpoint) : Handler Unit := do
  let _ ← call (.acceptCheckpoint msg)

def handleCatchup (source : String) (cert : CommitCertificate) (b : Block) : Handler Unit := do
  if (← call .get).state.isValidator source then
    let n ← call .get
    if n.nextHeight ≤ b.height then
      let .ok () ← call (.acceptCommitCertificate cert b) | pure ()
      if b.height = n.nextHeight ∧ b.previousHash ≠ n.committedHash then pure ()
      else enqueueCommitted b

/-- The answer to a catch-up request for one height. -/
def serveCatchup (height : Nat) : Handler Unit := do
  let _ ← sendCertified hash self height fun _ => true

/-- The commit worker has executed and stored a block that was decided. -/
def commitDurable (b : Block) (stateRoot : String) : Handler Unit := do
  if ← call (.commit b) then
    call (.markDurableCommit b)
    if (← call .get).state.checkpointDue b.height then
      let checkpoint := (← call .get).state.buildCheckpoint b.height b.blockHash stateRoot
      let .ok _ ← call (.voteCheckpoint checkpoint) | pure ()
      call (.send (.checkpoint checkpoint))

end

end Handler

/-! ## Events -/

inductive Event where
  | deliver (m : Message)
  | propose (b : Block)
  | retransmit
  | timeout (newView : Nat)
  | rebroadcastViewChange
  | serveCatchup (height : Nat)
  | commitDurable (b : Block) (stateRoot : String)

section Hash

variable (hash : BlockCore → String) (self : String)

def receive : Message → Handler Unit
  | .prePrepare msg => Handler.handlePrePrepare hash self msg
  | .prepare msg => Handler.handlePrepare self msg
  | .commit msg => Handler.handleCommit msg
  | .viewChange msg => Handler.handleViewChange self msg
  | .newView msg => Handler.handleNewView self msg
  | .checkpoint msg => Handler.handleCheckpoint msg
  | .catchup source cert b => Handler.handleCatchup source cert b

def handle : Event → Handler Unit
  | .deliver m => receive hash self m
  | .propose b => Handler.propose self b
  | .retransmit => Handler.retransmitProposal self
  | .timeout newView => Handler.initiateViewChange self newView
  | .rebroadcastViewChange => Handler.rebroadcastViewChange
  | .serveCatchup height => Handler.serveCatchup hash self height
  | .commitDurable b stateRoot => Handler.commitDurable b stateRoot

end Hash

end ChainLab.Pbft
