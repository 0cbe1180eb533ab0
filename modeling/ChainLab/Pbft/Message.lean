import ChainLab.Block.Model

/-!
# PBFT messages

The message and certificate records of `consensus/pbft/message.go`, and the quorum sizes of
`quorum.go`.  Signatures are left out: a message is attributed to the node it names, which is what
the unforgeability of validator signatures gives the handlers.
-/

namespace ChainLab.Pbft

/-- The largest `f` with `3 * f < n`. -/
def faultTolerance (n : Nat) : Nat :=
  if n = 0 then 0 else (n - 1) / 3

/-- More than two thirds of the validators. -/
def quorum (n : Nat) : Nat :=
  if n = 0 then 0 else 2 * n / 3 + 1

/-- The proposal of the leader of a view. -/
structure PrePrepare where
  view : Nat
  sequence : Nat
  height : Nat
  leaderID : String
  blockHash : String
  block : Block
deriving DecidableEq, Repr

/-- The first vote of a validator, for the block that it has locked. -/
structure Prepare where
  view : Nat
  sequence : Nat
  height : Nat
  nodeID : String
  blockHash : String
deriving DecidableEq, Repr

/-- The second vote, for a block with a quorum of prepares. -/
structure Commit where
  view : Nat
  sequence : Nat
  height : Nat
  nodeID : String
  blockHash : String
deriving DecidableEq, Repr

/-- A quorum of commits; a node that lags behind decides by it. -/
structure CommitCertificate where
  view : Nat
  sequence : Nat
  height : Nat
  blockHash : String
  commits : List Commit
deriving DecidableEq, Repr, Inhabited

/-- A quorum of prepares, carried into the next view. -/
structure PreparedCertificate where
  view : Nat
  sequence : Nat
  height : Nat
  blockHash : String
  prepares : List Prepare
deriving DecidableEq, Repr, Inhabited

/-- A vote for the state root at a height. -/
structure Checkpoint where
  height : Nat
  nodeID : String
  blockHash : String
  stateRoot : String
deriving DecidableEq, Repr

/-- A quorum of checkpoints, which makes the height stable. -/
structure CheckpointCertificate where
  height : Nat
  blockHash : String
  stateRoot : String
  checkpoints : List Checkpoint
deriving DecidableEq, Repr, Inhabited

/-- A vote to leave `view` for `newView`, with the highest prepared certificate of the node. -/
structure ViewChange where
  view : Nat
  newView : Nat
  nodeID : String
  height : Nat
  leaderID : String
  stableCheckpoint : Option CheckpointCertificate
  prepared : Option PreparedCertificate
  preparedBlock : Option Block
deriving DecidableEq, Repr

/-- The start of a view: a quorum of view changes and the block that they select. -/
structure NewView where
  view : Nat
  leaderID : String
  height : Nat
  viewChanges : List ViewChange
  selectedPrepared : Option PreparedCertificate
  selectedBlock : Option Block
deriving DecidableEq, Repr

/-- The sequence number of a block is its height. -/
def PrePrepare.ofBlock (view : Nat) (leaderID : String) (b : Block) : PrePrepare where
  view := view
  sequence := b.height
  height := b.height
  leaderID := leaderID
  blockHash := b.blockHash
  block := b

def Prepare.ofBlock (view : Nat) (nodeID : String) (b : Block) : Prepare where
  view := view
  sequence := b.height
  height := b.height
  nodeID := nodeID
  blockHash := b.blockHash

def Commit.ofBlock (view : Nat) (nodeID : String) (b : Block) : Commit where
  view := view
  sequence := b.height
  height := b.height
  nodeID := nodeID
  blockHash := b.blockHash

/-- `cert` replaces `chosen` as the highest prepared certificate met so far: a later view, or a
greater height of the same view.  The zero certificate stands for none. -/
def PreparedCertificate.supersedes (cert chosen : PreparedCertificate) : Bool :=
  chosen.blockHash = "" || chosen.view < cert.view ||
    (cert.view = chosen.view && chosen.height < cert.height)

/-- Two certificates of one view and height that name different blocks. -/
def PreparedCertificate.conflicts (cert chosen : PreparedCertificate) : Bool :=
  cert.view = chosen.view && cert.height = chosen.height && cert.blockHash ≠ chosen.blockHash

/-- The comparison by which a repeated VIEW-CHANGE of one node is told from an equivocation. -/
def sameViewChange (a b : ViewChange) : Bool :=
  a.view = b.view && a.newView = b.newView && a.nodeID = b.nodeID && a.height = b.height &&
    a.leaderID = b.leaderID &&
    (a.prepared.map fun c => (c.view, c.sequence, c.height, c.blockHash)) =
      (b.prepared.map fun c => (c.view, c.sequence, c.height, c.blockHash)) &&
    (a.preparedBlock.map fun x => x.blockHash) = (b.preparedBlock.map fun x => x.blockHash) &&
    (a.stableCheckpoint.map fun c => (c.height, c.blockHash, c.stateRoot)) =
      (b.stableCheckpoint.map fun c => (c.height, c.blockHash, c.stateRoot))

/-! ## Quorum arithmetic -/

lemma two_mul_lt_three_mul_quorum {n : Nat} (h : 0 < n) : 2 * n < 3 * quorum n := by
  unfold quorum
  split <;> omega

/-- Two quorums share more validators than can be faulty. -/
lemma faultTolerance_lt_two_mul_quorum_sub {n : Nat} (h : 0 < n) :
    n + faultTolerance n < 2 * quorum n := by
  unfold quorum faultTolerance
  split <;> omega

end ChainLab.Pbft
