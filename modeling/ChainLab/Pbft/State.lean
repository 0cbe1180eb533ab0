import ChainLab.Data.GoMap
import ChainLab.Data.Result
import ChainLab.Pbft.Message

/-!
# The PBFT replica state

`consensus/pbft/state.go` and `certificate.go`.  Every method of `State` holds the state's mutex for
its whole body, so each one is a function of the state.  A method that can fail returns
`Except String (State × result)`: on each of its error paths the source leaves the state as it was.

* `uint64` views, sequences and heights are natural numbers.
* `slotKey` prints view and sequence with fixed width, so the pair itself is the key.
* `LastProgressTime` and `CommitBroadcasts` only pace retransmissions and are left out.
* `hash` is `block.Hash`.
-/

namespace ChainLab.Pbft

open Result

inductive Stage where
  | idle
  | prePrepared
  | prepared
  | committed
  | viewChange
deriving DecidableEq, Repr

def defaultCheckpointInterval : Nat := 20

def defaultWatermarkWindow : Nat := 200

abbrev Slot := Nat × Nat

def slotKey (view sequence : Nat) : Slot := (view, sequence)

abbrev CheckpointKey := Nat × String

def checkpointKey (height : Nat) (blockHash stateRoot : String) : CheckpointKey :=
  (height, blockHash ++ ":" ++ stateRoot)

structure State where
  nodeID : String
  viewID : Nat := 0
  sequenceID : Nat := 0
  height : Nat := 0
  leaderID : String
  initialLeaderID : String
  validatorSet : List String
  prepareVotes : GoMap String (GoMap String Prepare) := ∅
  commitVotes : GoMap String (GoMap String Commit) := ∅
  earlyPrepareVotes : GoMap Slot (GoMap String Prepare) := ∅
  earlyCommitVotes : GoMap Slot (GoMap String Commit) := ∅
  viewChangeVotes : GoMap Nat (GoMap String ViewChange) := ∅
  checkpointVotes : GoMap CheckpointKey (GoMap String Checkpoint) := ∅
  lockedBlocks : GoMap String Block := ∅
  prePrepareBySlot : GoMap Slot String := ∅
  prepareBySlotNode : GoMap Slot (GoMap String String) := ∅
  commitBySlotNode : GoMap Slot (GoMap String String) := ∅
  preparedByHeight : GoMap Nat PreparedCertificate := ∅
  preparedBlocks : GoMap Nat Block := ∅
  committedBlocks : GoMap Nat Block := ∅
  commitCertificates : GoMap Nat CommitCertificate := ∅
  viewChangeBroadcasts : GoMap Nat Bool := ∅
  acceptedNewViews : GoMap Nat NewView := ∅
  stableCheckpoint : CheckpointCertificate := default
  lowWatermark : Nat := 0
  highWatermark : Nat := defaultWatermarkWindow
  checkpointInterval : Nat := defaultCheckpointInterval
  watermarkWindow : Nat := defaultWatermarkWindow
  stage : Stage := .idle

namespace State

/-- `NewState`: the validators are sorted, a replica without validators is its own, and the leader
defaults to the first of them. -/
def new (nodeID leaderID : String) (validators : List String) : State :=
  let sorted := validators.insertionSort (· ≤ ·)
  let validatorSet := if sorted = [] ∧ nodeID ≠ "" then [nodeID] else sorted
  let leader := if leaderID = "" then validatorSet.headD "" else leaderID
  { nodeID := nodeID, leaderID := leader, initialLeaderID := leader, validatorSet := validatorSet }

def configureCheckpoint (s : State) (interval window : Nat) : State :=
  let interval := if 0 < interval then interval else s.checkpointInterval
  let window := if 0 < window then window else s.watermarkWindow
  let window := if window < interval * 2 then interval * 2 else window
  { s with
    checkpointInterval := interval
    watermarkWindow := window
    highWatermark := s.lowWatermark + window }

def prepareQuorum (s : State) : Nat := quorum s.validatorSet.length

def commitQuorum (s : State) : Nat := quorum s.validatorSet.length

def isValidator (s : State) (nodeID : String) : Bool :=
  nodeID ≠ "" && s.validatorSet.contains nodeID

def leaderForView (s : State) (view : Nat) : String :=
  if s.validatorSet = [] then s.initialLeaderID
  else
    let base := if s.initialLeaderID ∈ s.validatorSet then s.validatorSet.idxOf s.initialLeaderID
      else 0
    s.validatorSet.getD ((base + view) % s.validatorSet.length) ""

def inWatermarks (s : State) (height : Nat) : Bool :=
  s.lowWatermark < height && (s.highWatermark = 0 || height ≤ s.highWatermark)

/-! ## Pre-prepare -/

section

variable (hash : BlockCore → String)

def validatePrePrepare (s : State) (msg : PrePrepare) : Except String Unit := do
  require (msg.view = s.viewID) "wrong_view"
  require (msg.leaderID = s.leaderForView msg.view) "wrong_leader"
  require (¬ (msg.sequence = 0 ∨ msg.height = 0 ∨ msg.sequence ≠ msg.height)) "wrong_sequence"
  require (s.inWatermarks msg.height) "outside_watermarks"
  require (¬ (msg.blockHash = "" ∨ msg.blockHash ≠ msg.block.blockHash ∨
    hash msg.block.toBlockCore ≠ msg.blockHash)) "wrong_digest"
  require (msg.height = msg.block.height) "wrong_height"
  let locked := s.prePrepareBySlot.get (slotKey msg.view msg.sequence)
  require (¬ (locked ≠ "" ∧ locked ≠ msg.blockHash)) "conflicting_preprepare"
  let prepared := s.preparedByHeight.get msg.height
  require (¬ (prepared.blockHash ≠ "" ∧ prepared.blockHash ≠ msg.blockHash))
    "prepared_digest_conflict"

/-- Move the buffered votes of a slot that name the accepted block into its vote tables. -/
def replayEarlyVotes (s : State) (slot : Slot) (blockHash : String) : State :=
  let prepares := (s.earlyPrepareVotes.get slot).retain fun _ vote => vote.blockHash = blockHash
  let commits := (s.earlyCommitVotes.get slot).retain fun _ vote => vote.blockHash = blockHash
  { s with
    prepareVotes := s.prepareVotes.putAllIn blockHash prepares id
    prepareBySlotNode := s.prepareBySlotNode.putAllIn slot prepares fun _ => blockHash
    earlyPrepareVotes := s.earlyPrepareVotes.delete slot
    commitVotes := s.commitVotes.putAllIn blockHash commits id
    commitBySlotNode := s.commitBySlotNode.putAllIn slot commits fun _ => blockHash
    earlyCommitVotes := s.earlyCommitVotes.delete slot }

def lockPrePrepare (s : State) (msg : PrePrepare) : State :=
  let slot := slotKey msg.view msg.sequence
  let s := { s with
    prePrepareBySlot := s.prePrepareBySlot.put slot msg.blockHash
    height := msg.height
    sequenceID := msg.sequence
    lockedBlocks := s.lockedBlocks.put msg.blockHash msg.block }
  let s := s.replayEarlyVotes slot msg.blockHash
  { s with
    stage := if s.stage ≠ .prepared ∧ s.stage ≠ .committed then .prePrepared else s.stage }

def onPrePrepare (s : State) (msg : PrePrepare) : Except String (State × Prepare) := do
  s.validatePrePrepare hash msg
  return (s.lockPrePrepare msg,
    { view := msg.view, sequence := msg.sequence, height := msg.height, nodeID := s.nodeID,
      blockHash := msg.blockHash })

def isDuplicatePrePrepare (s : State) (view sequence : Nat) (blockHash : String) : Bool :=
  blockHash ≠ "" && s.prePrepareBySlot.get (slotKey view sequence) = blockHash

end

/-! ## Votes -/

/-- The checks AcceptPrepare and AcceptCommit share; `kind` is the first word of their errors. -/
def checkVote (s : State) (kind : String) (nodeID : String) (view sequence height : Nat) :
    Except String Unit := do
  require (s.isValidator nodeID) (kind ++ "_unknown_validator")
  require (view = s.viewID) (kind ++ "_wrong_view")
  require (¬ (sequence = 0 ∨ height = 0 ∨ sequence ≠ height)) (kind ++ "_wrong_sequence")
  require (s.inWatermarks height) (kind ++ "_outside_watermarks")

def bufferEarlyPrepare (s : State) (slot : Slot) (msg : Prepare) : Except String State := do
  require (((s.earlyPrepareVotes.get slot).find msg.nodeID).all fun existing =>
    existing.blockHash = msg.blockHash) "prepare_equivocation"
  return { s with earlyPrepareVotes := s.earlyPrepareVotes.putIn slot msg.nodeID msg }

def bufferEarlyCommit (s : State) (slot : Slot) (msg : Commit) : Except String State := do
  require (((s.earlyCommitVotes.get slot).find msg.nodeID).all fun existing =>
    existing.blockHash = msg.blockHash) "commit_equivocation"
  return { s with earlyCommitVotes := s.earlyCommitVotes.putIn slot msg.nodeID msg }

def sortedPrepares (votes : GoMap String Prepare) : List Prepare := votes.sortedValues

def sortedCommits (votes : GoMap String Commit) : List Commit := votes.sortedValues

def sortedCheckpoints (votes : GoMap String Checkpoint) : List Checkpoint := votes.sortedValues

def recordPrepare (s : State) (msg : Prepare) : State :=
  { s with
    prepareBySlotNode :=
      s.prepareBySlotNode.putIn (slotKey msg.view msg.sequence) msg.nodeID msg.blockHash
    prepareVotes := s.prepareVotes.putIn msg.blockHash msg.nodeID msg }

/-- The prepared certificate is kept unless one of a later view is recorded for the height. -/
def storePrepared (s : State) (cert : PreparedCertificate) : State :=
  if (s.preparedByHeight.find cert.height).all fun existing => existing.view ≤ cert.view then
    let b := s.lockedBlocks.get cert.blockHash
    { s with
      preparedByHeight := s.preparedByHeight.put cert.height cert
      preparedBlocks := if b.blockHash ≠ "" then s.preparedBlocks.put cert.height b
        else s.preparedBlocks
      stage := .prepared }
  else { s with stage := .prepared }

def acceptPrepare (s : State) (msg : Prepare) : Except String (State × Bool × Nat) := do
  s.checkVote "prepare" msg.nodeID msg.view msg.sequence msg.height
  let slot := slotKey msg.view msg.sequence
  let locked := s.prePrepareBySlot.get slot
  if locked = "" then
    return (← s.bufferEarlyPrepare slot msg, false, 0)
  else
    require (locked = msg.blockHash) "prepare_without_matching_preprepare"
    let previous := (s.prepareBySlotNode.get slot).get msg.nodeID
    require (¬ (previous ≠ "" ∧ previous ≠ msg.blockHash)) "prepare_equivocation"
    let s := s.recordPrepare msg
    let votes := s.prepareVotes.get msg.blockHash
    if s.prepareQuorum ≤ votes.len then
      return (s.storePrepared
        { view := msg.view, sequence := msg.sequence, height := msg.height,
          blockHash := msg.blockHash, prepares := sortedPrepares votes }, true, votes.len)
    else
      return (s, false, votes.len)

def recordCommit (s : State) (msg : Commit) : State :=
  { s with
    commitBySlotNode :=
      s.commitBySlotNode.putIn (slotKey msg.view msg.sequence) msg.nodeID msg.blockHash
    commitVotes := s.commitVotes.putIn msg.blockHash msg.nodeID msg }

def acceptCommit (s : State) (msg : Commit) : Except String (State × Bool × Nat × Block) := do
  s.checkVote "commit" msg.nodeID msg.view msg.sequence msg.height
  let slot := slotKey msg.view msg.sequence
  let locked := s.prePrepareBySlot.get slot
  if locked = "" then
    return (← s.bufferEarlyCommit slot msg, false, 0, default)
  else
    require (locked = msg.blockHash) "commit_without_matching_preprepare"
    let previous := (s.commitBySlotNode.get slot).get msg.nodeID
    require (¬ (previous ≠ "" ∧ previous ≠ msg.blockHash)) "commit_equivocation"
    let s := s.recordCommit msg
    let votes := s.commitVotes.get msg.blockHash
    let b := s.lockedBlocks.get msg.blockHash
    if s.commitQuorum ≤ votes.len ∧ (s.preparedByHeight.find msg.height).any (fun prepared =>
          prepared.blockHash = msg.blockHash) ∧ b.blockHash ≠ "" then
      -- The certificate of the height is replaced whatever block it names.
      return ({ s with
        commitCertificates := s.commitCertificates.put msg.height
          { view := msg.view, sequence := msg.sequence, height := msg.height,
            blockHash := msg.blockHash, commits := sortedCommits votes }
        stage := .committed
        committedBlocks := s.committedBlocks.put b.height b }, true, votes.len, b)
    else
      return (s, false, votes.len, default)

/-! ## Certificates -/

/-- The votes of a certificate come from distinct validators and all agree with it; `kind` is the
first word of the errors. -/
def checkCertificateVotes {α : Type} (s : State) (kind : String) (nodeID : α → String)
    (agrees : α → Bool) (seen : List String) : List α → Except String Unit
  | [] => .ok ()
  | vote :: votes => do
    require (s.isValidator (nodeID vote)) (kind ++ "_certificate_unknown_validator")
    require (nodeID vote ∉ seen) (kind ++ "_certificate_duplicate_validator")
    require (agrees vote) (kind ++ "_certificate_vote_mismatch")
    s.checkCertificateVotes kind nodeID agrees (nodeID vote :: seen) votes

def validatePreparedCertificate (s : State) (cert : PreparedCertificate) : Except String Unit := do
  require (¬ (cert.blockHash = "" ∨ cert.height = 0 ∨ cert.sequence = 0))
    "invalid_prepared_certificate_identity"
  require (s.prepareQuorum ≤ cert.prepares.length) "prepared_certificate_insufficient_votes"
  s.checkCertificateVotes "prepared" Prepare.nodeID
    (fun vote => vote.view = cert.view && vote.sequence = cert.sequence &&
      vote.height = cert.height && vote.blockHash = cert.blockHash) [] cert.prepares

def validateCommitCertificate (s : State) (cert : CommitCertificate) : Except String Unit := do
  require (¬ (cert.blockHash = "" ∨ cert.height = 0 ∨ cert.sequence = 0 ∨
    cert.sequence ≠ cert.height)) "invalid_commit_certificate_identity"
  require (s.commitQuorum ≤ cert.commits.length) "commit_certificate_insufficient_votes"
  s.checkCertificateVotes "commit" Commit.nodeID
    (fun vote => vote.view = cert.view && vote.sequence = cert.sequence &&
      vote.height = cert.height && vote.blockHash = cert.blockHash) [] cert.commits

def validateCheckpointCertificate (s : State) (cert : CheckpointCertificate) :
    Except String Unit := do
  require (¬ (cert.height = 0 ∨ cert.blockHash = "" ∨ cert.stateRoot = ""))
    "invalid_checkpoint_certificate_identity"
  require (s.commitQuorum ≤ cert.checkpoints.length) "checkpoint_certificate_insufficient_votes"
  s.checkCertificateVotes "checkpoint" Checkpoint.nodeID
    (fun vote => vote.height = cert.height && vote.blockHash = cert.blockHash &&
      vote.stateRoot = cert.stateRoot) [] cert.checkpoints

section Hash

variable (hash : BlockCore → String)

def acceptCommitCertificate (s : State) (cert : CommitCertificate) (b : Block) :
    Except String State := do
  s.validateCommitCertificate cert
  require (¬ (b.blockHash = "" ∨ b.height ≠ cert.height ∨ b.blockHash ≠ cert.blockHash ∨
    hash b.toBlockCore ≠ cert.blockHash)) "commit_certificate_block_mismatch"
  require ((s.commitCertificates.find cert.height).all fun existing =>
    existing.blockHash = cert.blockHash) "commit_certificate_height_conflict"
  return { s with
    commitCertificates := s.commitCertificates.put cert.height cert
    committedBlocks := s.committedBlocks.put cert.height b }

/-! ## View change -/

/-- The highest prepared certificate at or below `height`, with its block; the zero certificate when
there is none. -/
def highestPrepared (s : State) (height : Nat) : PreparedCertificate × Block :=
  s.preparedByHeight.entries.foldl (fun chosen e =>
    if e.1 ≤ height ∧ e.2.supersedes chosen.1 then (e.2, s.preparedBlocks.get e.1) else chosen)
    (default, default)

def buildViewChange (s : State) (newView height : Nat) : Except String (State × ViewChange) := do
  require (s.viewID < newView) "view_change_not_forward"
  let chosen := s.highestPrepared height
  return ({ s with stage := .viewChange },
    { view := s.viewID
      newView := newView
      nodeID := s.nodeID
      height := height
      leaderID := s.leaderForView newView
      stableCheckpoint := if 0 < s.stableCheckpoint.height then some s.stableCheckpoint else none
      prepared := if chosen.1.blockHash ≠ "" then some chosen.1 else none
      preparedBlock := if chosen.1.blockHash ≠ "" ∧ chosen.2.blockHash ≠ "" then some chosen.2
        else none })

/-- The certificates a VIEW-CHANGE carries are valid; `kind` is the first word of the error for a
block that is not the one certified. -/
def validateEvidence (s : State) (kind : String) (vc : ViewChange) : Except String Unit := do
  vc.stableCheckpoint.elim (.ok ()) s.validateCheckpointCertificate
  vc.prepared.elim (.ok ()) fun cert => do
    s.validatePreparedCertificate cert
    require (vc.preparedBlock.any fun b => b.blockHash = cert.blockHash &&
      b.height = cert.height && hash b.toBlockCore = cert.blockHash)
      (kind ++ "_prepared_block_mismatch")

def acceptViewChange (s : State) (msg : ViewChange) : Except String (State × Bool × Nat) := do
  require (s.isValidator msg.nodeID) "view_change_unknown_validator"
  require (¬ (msg.newView ≤ msg.view ∨ msg.newView ≤ s.viewID)) "view_change_not_forward"
  require (msg.leaderID = s.leaderForView msg.newView) "view_change_wrong_leader"
  s.validateEvidence hash "view_change" msg
  let votes := s.viewChangeVotes.get msg.newView
  match votes.find msg.nodeID with
  | some existing => do
    require (sameViewChange existing msg) "view_change_equivocation"
    return (s, s.commitQuorum ≤ votes.len, votes.len)
  | none =>
    let count := (votes.put msg.nodeID msg).len
    return ({ s with
      viewChangeVotes := s.viewChangeVotes.putIn msg.newView msg.nodeID msg
      stage := .viewChange }, s.commitQuorum ≤ count, count)

def markViewChangeBroadcast (s : State) (newView : Nat) : State × Bool :=
  if s.viewChangeBroadcasts.get newView then (s, false)
  else ({ s with viewChangeBroadcasts := s.viewChangeBroadcasts.put newView true }, true)

def hasViewChangeFrom (s : State) (newView : Nat) (nodeID : String) : Bool :=
  ((s.viewChangeVotes.get newView).find nodeID).isSome

/-! ## New view -/

/-- Fold one VIEW-CHANGE into the highest prepared certificate met so far. -/
def selectPrepared (chosen : PreparedCertificate × Block) (vc : ViewChange) :
    Except String (PreparedCertificate × Block) :=
  match vc.prepared with
  | none => .ok chosen
  | some cert =>
    if cert.supersedes chosen.1 then .ok (cert, vc.preparedBlock.getD chosen.2)
    else do
      require (¬ cert.conflicts chosen.1) "new_view_conflicting_highest_prepared"
      return chosen

def buildNewView (s : State) (newView height : Nat) : Except String NewView := do
  require (s.nodeID = s.leaderForView newView) "new_view_not_primary"
  let votes := s.viewChangeVotes.get newView
  require (s.commitQuorum ≤ votes.len) "new_view_insufficient_view_changes"
  let viewChanges := votes.sortedValues
  let selected ← viewChanges.foldlM selectPrepared (default, default)
  return { view := newView
           leaderID := s.leaderForView newView
           height := height
           viewChanges := viewChanges
           selectedPrepared := if selected.1.blockHash ≠ "" then some selected.1 else none
           selectedBlock := if selected.1.blockHash ≠ "" then some selected.2 else none }

/-- The loop of `validateNewViewLocked` over the view changes of a NEW-VIEW. -/
def checkViewChanges (s : State) (msg : NewView) (seen : List String)
    (highest : PreparedCertificate × Block) :
    List ViewChange → Except String (PreparedCertificate × Block)
  | [] => .ok highest
  | vc :: vcs => do
    require (vc.nodeID ∉ seen) "new_view_duplicate_view_change"
    require (vc.newView = msg.view ∧ vc.leaderID = msg.leaderID) "new_view_view_change_mismatch"
    require (s.isValidator vc.nodeID) "new_view_unknown_validator"
    s.validateEvidence hash "new_view" vc
    let highest ← selectPrepared highest vc
    s.checkViewChanges msg (vc.nodeID :: seen) highest vcs

def validateNewView (s : State) (msg : NewView) : Except String Unit := do
  require (s.viewID ≤ msg.view) "new_view_not_forward"
  require (msg.leaderID = s.leaderForView msg.view) "new_view_wrong_leader"
  require (s.commitQuorum ≤ msg.viewChanges.length) "new_view_insufficient_view_changes"
  let highest ← s.checkViewChanges hash msg [] (default, default) msg.viewChanges
  if highest.1.blockHash = "" then
    require (msg.selectedPrepared = none ∧ msg.selectedBlock = none)
      "new_view_unexpected_selected_prepared"
  else
    match msg.selectedPrepared, msg.selectedBlock with
    | some cert, some b =>
      require (cert.view = highest.1.view ∧ cert.sequence = highest.1.sequence ∧
        cert.height = highest.1.height ∧ cert.blockHash = highest.1.blockHash ∧
        b.blockHash = highest.2.blockHash ∧ hash b.toBlockCore = highest.2.blockHash)
        "new_view_wrong_selected_prepared"
    | _, _ => .error "new_view_missing_selected_prepared"

/-- The state a NEW-VIEW of a later view installs: votes, locks and prepared evidence start afresh,
and the selected proposal, if there is one, is locked in the new view. -/
def installNewView (s : State) (msg : NewView) : State :=
  let fresh := { s with
    acceptedNewViews := (s.acceptedNewViews.put msg.view msg).retain fun view _ => msg.view ≤ view
    prepareVotes := ∅
    commitVotes := ∅
    earlyPrepareVotes := ∅
    earlyCommitVotes := ∅
    lockedBlocks := ∅
    prePrepareBySlot := ∅
    prepareBySlotNode := ∅
    commitBySlotNode := ∅
    preparedByHeight := ∅
    preparedBlocks := ∅
    viewChangeBroadcasts := s.viewChangeBroadcasts.retain fun view _ =>
      msg.view ≤ view || (s.viewChangeVotes.find view).isNone
    viewChangeVotes := s.viewChangeVotes.retain fun view _ => msg.view ≤ view
    viewID := msg.view
    leaderID := msg.leaderID
    height := msg.height
    sequenceID := msg.height
    stage := .idle }
  match msg.selectedPrepared, msg.selectedBlock with
  | some cert, some b =>
    { fresh with
      preparedByHeight := fresh.preparedByHeight.put cert.height cert
      preparedBlocks := fresh.preparedBlocks.put cert.height b
      lockedBlocks := fresh.lockedBlocks.put b.blockHash b
      prePrepareBySlot := fresh.prePrepareBySlot.put (slotKey msg.view cert.sequence) b.blockHash }
  | _, _ => fresh

/-- The result is the selected block, when there is one. -/
def acceptNewView (s : State) (msg : NewView) : Except String (State × Option Block) := do
  s.validateNewView hash msg
  if msg.view = s.viewID then
    return ({ s with acceptedNewViews := s.acceptedNewViews.put msg.view msg }, msg.selectedBlock)
  else
    return (s.installNewView msg, msg.selectedPrepared.bind fun _ => msg.selectedBlock)

/-- The legacy entry point: a NEW-VIEW without view changes moves the view and nothing else. -/
def onNewView (s : State) (msg : NewView) : State :=
  if msg.viewChanges = [] then
    if s.viewID < msg.view ∧ msg.leaderID = s.leaderForView msg.view then
      { s with viewID := msg.view, leaderID := msg.leaderID, stage := .idle }
    else s
  else
    match s.acceptNewView hash msg with
    | .ok (s', _) => s'
    | .error _ => s

end Hash

/-! ## Durable commits and checkpoints -/

/-- The locked block of a slot's pre-prepare is at or below `height`; a missing block counts. -/
def slotReleased (s : State) (height : Nat) (slot : Slot) : Bool :=
  (s.prePrepareBySlot.find slot).any fun blockHash => (s.lockedBlocks.get blockHash).height ≤ height

def hashReleased (s : State) (height : Nat) (blockHash : String) : Bool :=
  (s.lockedBlocks.find blockHash).any fun locked => locked.height ≤ height

def markDurableCommit (s : State) (b : Block) : State :=
  if b.blockHash = "" ∨ b.height = 0 then s
  else
    { s with
      committedBlocks := s.committedBlocks.put b.height b
      preparedByHeight := s.preparedByHeight.delete b.height
      preparedBlocks := s.preparedBlocks.delete b.height
      prePrepareBySlot := s.prePrepareBySlot.retain fun slot _ => !s.slotReleased b.height slot
      prepareBySlotNode := s.prepareBySlotNode.retain fun slot _ => !s.slotReleased b.height slot
      commitBySlotNode := s.commitBySlotNode.retain fun slot _ => !s.slotReleased b.height slot
      lockedBlocks := s.lockedBlocks.retain fun h _ => !s.hashReleased b.height h
      prepareVotes := s.prepareVotes.retain fun h _ => !s.hashReleased b.height h
      commitVotes := s.commitVotes.retain fun h _ => !s.hashReleased b.height h
      height := b.height
      sequenceID := b.height
      stage := .idle }

def checkpointDue (s : State) (height : Nat) : Bool :=
  0 < s.checkpointInterval && 0 < height && height % s.checkpointInterval = 0

def buildCheckpoint (s : State) (height : Nat) (blockHash stateRoot : String) : Checkpoint :=
  { height := height, nodeID := s.nodeID, blockHash := blockHash, stateRoot := stateRoot }

/-- A slot loses its lock at a stable checkpoint when its block is gone or at most `height`. -/
def slotPruned (s : State) (height : Nat) (slot : Slot) : Bool :=
  (s.prePrepareBySlot.find slot).any fun blockHash =>
    s.hashReleased height blockHash || (s.lockedBlocks.get blockHash).blockHash = "" ||
      (s.lockedBlocks.get blockHash).height ≤ height

def pruneStable (s : State) (height : Nat) : State :=
  { s with
    lockedBlocks := s.lockedBlocks.retain fun h _ => !s.hashReleased height h
    prepareVotes := s.prepareVotes.retain fun h _ => !s.hashReleased height h
    commitVotes := s.commitVotes.retain fun h _ => !s.hashReleased height h
    preparedByHeight := s.preparedByHeight.retain fun h _ => height < h
    preparedBlocks := s.preparedBlocks.retain fun h _ =>
      height < h || (s.preparedByHeight.find h).isNone
    committedBlocks := s.committedBlocks.retain fun h _ => height ≤ h
    prePrepareBySlot := s.prePrepareBySlot.retain fun slot _ => !s.slotPruned height slot
    prepareBySlotNode := s.prepareBySlotNode.retain fun slot _ => !s.slotPruned height slot
    commitBySlotNode := s.commitBySlotNode.retain fun slot _ => !s.slotPruned height slot
    -- Each of these loops looks at one vote of the slot and stops.
    earlyPrepareVotes := s.earlyPrepareVotes.retain fun slot votes =>
      !s.slotPruned height slot && votes.first.all fun vote => height < vote.height
    earlyCommitVotes := s.earlyCommitVotes.retain fun slot votes =>
      !s.slotPruned height slot && votes.first.all fun vote => height < vote.height
    checkpointVotes := s.checkpointVotes.retain fun _ votes =>
      votes.first.all fun vote => height ≤ vote.height
    viewChangeBroadcasts := s.viewChangeBroadcasts.retain fun view _ =>
      s.viewID ≤ view || (s.viewChangeVotes.find view).isNone
    viewChangeVotes := s.viewChangeVotes.retain fun view _ => s.viewID ≤ view
    acceptedNewViews := s.acceptedNewViews.retain fun view _ => s.viewID ≤ view }

def acceptCheckpoint (s : State) (msg : Checkpoint) :
    Except String (State × Bool × Nat × CheckpointCertificate) := do
  require (s.isValidator msg.nodeID) "checkpoint_unknown_validator"
  require (¬ (msg.height = 0 ∨ msg.blockHash = "" ∨ msg.stateRoot = ""))
    "checkpoint_invalid_identity"
  let localBlock := s.committedBlocks.get msg.height
  require (¬ (localBlock.blockHash ≠ "" ∧ localBlock.blockHash ≠ msg.blockHash))
    "checkpoint_block_mismatch"
  let key := checkpointKey msg.height msg.blockHash msg.stateRoot
  let s := { s with checkpointVotes := s.checkpointVotes.putIn key msg.nodeID msg }
  let votes := s.checkpointVotes.get key
  if votes.len < s.commitQuorum then
    return (s, false, votes.len, default)
  else
    let cert : CheckpointCertificate :=
      { height := msg.height, blockHash := msg.blockHash, stateRoot := msg.stateRoot,
        checkpoints := sortedCheckpoints votes }
    -- Remote votes alone do not install a checkpoint: the block must be durable here and this
    -- replica's own vote for it recorded.
    let installed := (s.committedBlocks.find msg.height).any (fun b =>
        b.blockHash = msg.blockHash) ∧
      (votes.find s.nodeID).any fun vote => vote.height = msg.height &&
        vote.blockHash = msg.blockHash && vote.stateRoot = msg.stateRoot
    if installed ∧ s.stableCheckpoint.height < msg.height then
      return ({ s with
        stableCheckpoint := cert
        lowWatermark := msg.height
        highWatermark := msg.height + s.watermarkWindow }.pruneStable msg.height,
        true, votes.len, cert)
    else
      return (s, false, votes.len, cert)

end State
end ChainLab.Pbft
