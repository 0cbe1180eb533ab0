import ChainLab.Data.Result
import ChainLab.Home.Delta

/-!
# The commit path of a node

A block that has been agreed on, fetched from another node or replayed is committed by `commitOnce`:
it is checked against the head of the chain, executed, applied to the database and written to the
store. Blocks of later heights wait in `pendingCommits` and are tried after the block before them
(`drainPendingCommits`).
-/

namespace ChainLab.Commit

open State (Sha StateKV DB Snapshot)
open Home (SystemStateDelta)

inductive CommitOrigin where
  | consensus
  | catchUp
  | recoveryReplay
deriving DecidableEq, Repr

def CommitOrigin.text : CommitOrigin → String
  | .consensus => "consensus"
  | .catchUp => "catch_up"
  | .recoveryReplay => "recovery_replay"

inductive CommitDisposition where
  | applied
  | alreadyApplied
  | deferred
  | rejected
deriving DecidableEq, Repr

def CommitDisposition.text : CommitDisposition → String
  | .applied => "applied"
  | .alreadyApplied => "already_applied"
  | .deferred => "deferred"
  | .rejected => "rejected"

structure Block where
  blockHash : String := ""
  previousHash : String := ""
  height : Nat := 0
  txIDs : List String := []
  systemStateDeltas : List SystemStateDelta := []
  compactProposal : Bool := false
deriving DecidableEq

instance : Inhabited Block := ⟨{}⟩

structure CommitResult where
  disposition : CommitDisposition
  block : Block
  error : Option String := none

structure ChainRow where
  height : Nat
  blockHash : String
  previousHash : String
deriving DecidableEq, Repr

structure Node where
  home : Home.Runtime
  committedHeight : Nat := 0
  committedHash : String := ""
  committed : GoMap String Bool := ∅
  committing : GoMap String Bool := ∅
  pendingCommits : GoMap Nat Block := ∅
  pendingCommitErrors : GoMap Nat String := ∅
  fatalPersistenceError : String := ""
  fatalExecutionError : String := ""
  chainRows : List ChainRow := []

/-! ## The parts that a commit calls -/

structure Receipt where
  txID : String
  success : Bool := true
  error : String := ""
deriving DecidableEq, Repr

inductive Failure where
  | plain (message : String)
  | rollback (message : String)
  | deterministic (message : String)
deriving DecidableEq, Repr

/-- `SnapshotIfDue`: the generation of the log is raised once the snapshot is written. -/
inductive SnapshotAnswer where
  | notDue
  | taken
  | failedBefore (message : String)
  | failedAfter (message : String)
deriving DecidableEq, Repr

structure Answers where
  /-- The transactions of a compact proposal. -/
  hydrate : Except String (List String) := .ok []
  validateConsensusBlockBody : Option String := none
  stateCheckpoint : Option String := none
  storeCheckpoint : Option String := none
  /-- The projections of a replica or of remote state. -/
  projection : Option String := none
  prefetch : Option String := none
  planDrivesExecution : Option String := none
  /-- The receipts, or an error with the answer of `isDeterministicExecutionError`. -/
  execute : Except (String × Bool) (List Receipt) := .ok []
  publishStateVersions : Option String := none
  flushVersionLiveness : Option String := none
  /-- The changes that the block makes itself. -/
  physicalDelta : Except Failure (List StateKV) := .ok []
  persistDelta : Option String := none
  joinDeferredVersions : Option String := none
  durableCommit : Option String := none
  snapshotIfDue : SnapshotAnswer := .notDue
  stateRollback : Option String := none
  storeRollback : Option String := none
  /-- The versions of the transactions of the block, for `markLocalVersionedMaterialized`. -/
  localVersions : List (String × Nat) := []

/-- Go on when a part answers without an error. -/
def check (answer : Option String) (failure : String → Failure) : Except Failure Unit :=
  match answer with
  | some message => .error (failure message)
  | none => .ok ()

/-! ## Receipts -/

def checkReceipts (height : Nat) : List String → List Receipt → Option String
  | _, [] => none
  | seen, receipt :: receipts =>
    if receipt.txID = "" then
      some ("execution receipt missing transaction id at block height " ++ Text.formatUint height)
    else if receipt.txID ∈ seen then
      some ("duplicate execution receipt for transaction " ++ receipt.txID ++ " at block height " ++
        Text.formatUint height)
    else checkReceipts height (receipt.txID :: seen) receipts

def checkTransactions (height : Nat) (receiptIDs : List String) : List String → List String →
    Option String
  | _, [] => none
  | seen, txID :: txIDs =>
    if txID = "" then
      some ("block transaction missing id at block height " ++ Text.formatUint height)
    else if txID ∈ seen then
      some ("duplicate transaction id " ++ txID ++ " in block height " ++ Text.formatUint height)
    else if txID ∉ receiptIDs then
      some ("missing execution receipt for transaction " ++ txID ++ " at block height " ++
        Text.formatUint height)
    else checkTransactions height receiptIDs (txID :: seen) txIDs

/-- Every transaction of the block has one receipt, and there are no others. -/
def receiptsError (block : Block) (receipts : List Receipt) : Option String :=
  match checkReceipts block.height [] receipts with
  | some message => some message
  | none =>
    if receipts.length ≠ block.txIDs.length then
      some ("execution receipt count mismatch at block height " ++ Text.formatUint block.height ++
        ": receipts=" ++ Text.formatUint receipts.length ++ " transactions=" ++
        Text.formatUint block.txIDs.length)
    else checkTransactions block.height (receipts.map Receipt.txID) [] block.txIDs

/-! ## One commit -/

variable (sha : Sha)

inductive Admission where
  | reject (message : String)
  | alreadyApplied
  | defer
  | proceed
deriving DecidableEq, Repr

namespace Node

/-- The checks of a block against the head of the chain.  The head is checked again after the body
of a fetched block was validated; commits are made one at a time, so it is the same. -/
def admission (n : Node) (block : Block) (origin : CommitOrigin) (answers : Answers) : Admission :=
  if n.fatalPersistenceError ≠ ""
    then .reject ("fatal persistence freeze: " ++ n.fatalPersistenceError)
  else if n.fatalExecutionError ≠ ""
    then .reject ("fatal execution freeze: " ++ n.fatalExecutionError)
  else if n.committed.get block.blockHash then .alreadyApplied
  else if n.committing.get block.blockHash then
    .reject ("block " ++ block.blockHash ++ " is already being committed")
  else if n.committedHeight + 1 < block.height then .defer
  else if block.height < n.committedHeight + 1 then
    .reject ("stale block height " ++ Text.formatUint block.height ++ ", expected " ++
      Text.formatUint (n.committedHeight + 1))
  else if block.previousHash ≠ n.committedHash then
    .reject ("parent hash mismatch at height " ++ Text.formatUint block.height)
  else
    match origin, answers.validateConsensusBlockBody with
    | .catchUp, some message => .reject ("certified catch-up ordered block body: " ++ message)
    | _, _ => .proceed

/-- From the remote changes of the block to the changes that are applied to the database. -/
def prepare (n : Node) (block : Block) (answers : Answers) : Except Failure (List StateKV) := do
  let remoteDeltas ←
    (Home.materializableRemoteStateDeltas true n.home.stateAccessPartitionID block.height
    n.home.stateVersionMaterialized block.systemStateDeltas).mapError .rollback
  let _ ← (State.applyStateKVs sha n.home.stateAccessPartitionID n.home.db.values
    remoteDeltas).mapError
    fun err => .rollback err.message
  check answers.projection .rollback
  check answers.prefetch .rollback
  check answers.planDrivesExecution .deterministic
  let receipts ← answers.execute.mapError fun err =>
    if err.2 then .deterministic err.1 else .plain err.1
  check answers.publishStateVersions .rollback
  check answers.flushVersionLiveness .plain
  check (receiptsError block receipts) .deterministic
  let physicalDelta ← answers.physicalDelta
  return Home.filterVersionedPhysicalDelta n.home.stateVersionMaterialized
    (remoteDeltas ++ physicalDelta)

/-- The database after the log and the store were written, with the error that stopped it. -/
def persist (block : Block) (answers : Answers) (db : DB) : DB × Option String :=
  match answers.persistDelta with
  | some message => (db, some message)
  | none =>
    let db := { db with lastHeight := block.height, lastBlockHash := block.blockHash }
    match answers.joinDeferredVersions, answers.durableCommit with
    | some message, _ => (db, some message)
    | none, some message => (db, some message)
    | none, none =>
      match answers.snapshotIfDue with
      | .notDue => (db, none)
      | .taken => ({ db with walGeneration := db.walGeneration + 1 }, none)
      | .failedBefore message => (db, some message)
      | .failedAfter message => ({ db with walGeneration := db.walGeneration + 1 }, some message)

def rejected (block : Block) (message : String) : CommitResult :=
  { disposition := .rejected, block := block, error := some message }

/-- `rollbackCommitFailure`: the database gets the values it had before the commit. -/
def rollbackCommitFailure (n : Node) (block : Block) (answers : Answers) (db : DB)
    (cause : String) :
    Node × CommitResult :=
  let n' := { n with home := { n.home with db := db.restore sha n.home.db.values } }
  match answers.stateRollback, answers.storeRollback with
  | none, none => (n', rejected block cause)
  | stateErr, storeErr =>
    let parts := (stateErr.map ("state rollback: " ++ ·)).toList ++
      (storeErr.map ("store rollback: " ++ ·)).toList
    let message := "; ".intercalate parts
    ({ n' with fatalPersistenceError := message },
      rejected block (cause ++ "; rollback also failed: " ++ message))

/-- The end of a commit that fails with the database `db`. -/
def fail (n : Node) (block : Block) (answers : Answers) (db : DB) : Failure → Node × CommitResult
  | .plain message => (n, rejected block message)
  | .rollback message => n.rollbackCommitFailure sha block answers db message
  | .deterministic message => ({ n with fatalExecutionError := message }, rejected block message)

/-- `markLocalVersionedMaterialized`. -/
def markLocalVersions (materialized : GoMap String Nat) (versions : List (String × Nat)) :
    GoMap String Nat :=
  versions.foldl (fun m v => if m.get v.1 < v.2 then m.put v.1 v.2 else m) materialized

/-- The end of a commit that succeeds: the block that waits for the next height is taken out. -/
def advance (n : Node) (block : Block) (answers : Answers) (db : DB) : Node × CommitResult :=
  let home := { n.home with db := db }.markRemoteStateDeltasApplied sha block.systemStateDeltas
  let home := { home with
    stateVersionMaterialized :=
      markLocalVersions home.stateVersionMaterialized answers.localVersions }
  let home := home.publishCommittedMethodPreservingSystemStateDeltaVersions block.systemStateDeltas
  ({ n with
      home := home
      committed := n.committed.put block.blockHash true
      chainRows := n.chainRows ++ [⟨block.height, block.blockHash, block.previousHash⟩]
      committedHeight := block.height
      committedHash := block.blockHash
      pendingCommits := n.pendingCommits.delete (block.height + 1) },
    { disposition := .applied, block := n.pendingCommits.get (block.height + 1) })

/-- The commit of a block that was let through. -/
def execute (n : Node) (block : Block) (answers : Answers) : Node × CommitResult :=
  match answers.stateCheckpoint, answers.storeCheckpoint with
  | some message, _ => (n, rejected block message)
  | none, some message => (n, rejected block message)
  | none, none =>
    let n := { n with home := n.home.publishSystemStateDeltaVersions block.systemStateDeltas }
    match n.prepare sha block answers with
    | .error failure => n.fail sha block answers n.home.db failure
    | .ok physicalDelta =>
      match n.home.db.applyDeterministicBatch sha physicalDelta with
      | (db, some err) => n.fail sha block answers db (.rollback err.message)
      | (db, none) =>
        match persist block answers db with
        | (db, some message) => n.fail sha block answers db (.rollback message)
        | (db, none) => n.advance sha block answers db

/-- While a block is committed its hash is in `committing`. -/
def commitOnce (n : Node) (block : Block) (origin : CommitOrigin) (answers : Answers) :
    Node × CommitResult :=
  match if block.compactProposal then answers.hydrate else .ok block.txIDs with
  | .error message => (n, rejected block message)
  | .ok txIDs =>
    let block := { block with txIDs := txIDs }
    match n.admission block origin answers with
    | .reject message => (n, rejected block message)
    | .alreadyApplied => (n, { disposition := .alreadyApplied, block := default })
    | .defer =>
      ({ n with pendingCommits := n.pendingCommits.put block.height block },
        { disposition := .deferred, block := default })
    | .proceed =>
      let (n, result) := { n with committing := n.committing.put block.blockHash true }.execute sha
        block answers
      ({ n with committing := n.committing.delete block.blockHash }, result)

/-! ## Tasks -/

def pendingError (n : Node) (block : Block) (message : String) : Node :=
  { n with
    pendingCommitErrors :=
      n.pendingCommitErrors.put block.height (block.blockHash ++ ": " ++ message) }

/-- The loop of `drainPendingCommits`; its `i`-th commit gets the answers of number `i`. -/
def drainPendingCommits (origin : CommitOrigin) (answers : Nat → Answers) : Nat → Nat → Node →
    Block → Node
  | 0, _, n, _ => n
  | fuel + 1, i, n, next =>
    if next.blockHash = "" then n
    else
      match n.commitOnce sha next origin (answers i) with
      | (n, { error := some message, .. }) => n.pendingError next message
      | (n, { error := none, disposition := .applied, block := following }) =>
        drainPendingCommits origin answers fuel (i + 1) n following
      | (n, { error := none, disposition := disposition, .. }) =>
        n.pendingError next disposition.text

/-- The pending blocks are finitely many, and every round of the loop but the first takes one
out. -/
def commitWithOrigin (n : Node) (block : Block) (origin : CommitOrigin) (answers : Nat → Answers) :
    Node × CommitResult :=
  if n.fatalPersistenceError ≠ "" then
    (n, rejected block ("fatal persistence freeze: " ++ n.fatalPersistenceError))
  else if n.fatalExecutionError ≠ "" then
    (n, rejected block ("fatal execution freeze: " ++ n.fatalExecutionError))
  else
    match n.commitOnce sha block origin (answers 0) with
    | (n, result) =>
      if result.disposition = .applied then
        (n.drainPendingCommits sha origin answers (n.pendingCommits.len + 1) 1 result.block, result)
      else (n, result)

end Node

/-! ## The mailbox of the commit worker -/

inductive CommitTaskKind where
  | consensus
  | catchUp
deriving DecidableEq, Repr

def CommitTaskKind.text : CommitTaskKind → String
  | .consensus => "consensus"
  | .catchUp => "catch_up"

structure CommitTask where
  key : String
  kind : CommitTaskKind
  block : Block
  origin : CommitOrigin

structure Worker where
  node : Node
  running : Bool := true
  commitTasks : List CommitTask := []
  capacity : Nat
  queuedCommitTasks : GoMap String Bool := ∅

namespace Worker

def enqueueCommitTask (w : Worker) (kind : CommitTaskKind) (block : Block) (origin : CommitOrigin) :
    Worker × Option String :=
  if block.blockHash = "" then (w, some "commit task has empty block hash")
  else
    let key := kind.text ++ "|" ++ origin.text ++ "|" ++ block.blockHash
    if ¬ w.running then (w, some "commit worker is not running")
    else if w.queuedCommitTasks.get key then (w, none)
    else if w.commitTasks.length < w.capacity then
      ({ w with
          queuedCommitTasks := w.queuedCommitTasks.put key true
          commitTasks := w.commitTasks ++ [⟨key, kind, block, origin⟩] }, none)
    else (w, some "commit mailbox is full")

/-- `executeCommitTask` for the first task of the mailbox. -/
def work (w : Worker) (answers : Nat → Answers) : Worker :=
  match w.commitTasks with
  | [] => w
  | task :: tasks =>
    let origin := match task.kind with
      | .consensus => .consensus
      | .catchUp => task.origin
    { w with
      node := (w.node.commitWithOrigin sha task.block origin answers).1
      commitTasks := tasks
      queuedCommitTasks := w.queuedCommitTasks.delete task.key }

end Worker

/-- Tasks come from consensus and from other nodes through the mailbox; replay calls the commit
directly. -/
inductive Event where
  | enqueue (kind : CommitTaskKind) (block : Block) (origin : CommitOrigin)
  | work (answers : Nat → Answers)
  | commit (block : Block) (origin : CommitOrigin) (answers : Nat → Answers)

def Worker.step (w : Worker) : Event → Worker
  | .enqueue kind block origin => (w.enqueueCommitTask kind block origin).1
  | .work answers => w.work sha answers
  | .commit block origin answers =>
    { w with node := (w.node.commitWithOrigin sha block origin answers).1 }

def Worker.run (w : Worker) (events : List Event) : Worker :=
  events.foldl (Worker.step sha) w

end ChainLab.Commit
