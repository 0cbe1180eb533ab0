import ChainLab.Data.WorkerPool
import ChainLab.Execution.BatchSI.Plan
import ChainLab.Execution.SerialExecutor

/-!
# The Batch-SI executor

`executeConsensusPlanWithCommitment` executes the batches of a plan one after the other.  The
workers of a pool execute the transactions of a batch over the state in which the batch starts; then
the write sets are applied in the order of the plan, each after a check against the declared writes.
`Executes` relates a base state to every outcome that some interleaving of the workers leads to,
`serialExecute` executes the transactions one by one.
-/

namespace ChainLab.Execution.BatchSI

/-! ## Transactions -/

abbrev batchSIQualifiedKey (shardID key : String) : String := qualified shardID key

/-- Unlike the serial executor, reads alone do not make a commutative transaction. -/
def isPureCommutativeDelta (accesses : List AccessItem) : Bool :=
  (accesses.all fun access => access.mode = .read || access.mode = .commutativeDelta) &&
    accesses.any fun access => access.mode = .commutativeDelta

structure AccountAccess where
  balanceWritable : Bool := false
  noncePresent : Bool := false
  nonceWritable : Bool := false
deriving DecidableEq, Repr, Inhabited

def isWritable (mode : AccessMode) : Bool :=
  mode = .write || mode = .readWrite || mode = .commutativeDelta

/-- What an access declares about the account in its key, if there is one. -/
def noteAccount (accounts : GoMap String AccountAccess) (access : AccessItem) :
    GoMap String AccountAccess :=
  let key := Text.trimSpace access.key
  if Text.hasPrefix key "balance:" then
    let account := Text.trimSpace (Text.trimPrefix key "balance:")
    let entry := accounts.get account
    if account = "" then accounts
    else accounts.put account
      { entry with balanceWritable := entry.balanceWritable || isWritable access.mode }
  else if Text.hasPrefix key "nonce:" then
    let account := Text.trimSpace (Text.trimPrefix key "nonce:")
    let entry := accounts.get account
    if account = "" then accounts
    else accounts.put account
      { entry with
        noncePresent := true
        nonceWritable := entry.nonceWritable || isWritable access.mode }
  else accounts

/-- `batchSITransferAccounts`: the sender and the receiver under the names of the access list. -/
def transferAccounts (item : SignedTransaction) : String × String :=
  let accounts := item.accessList.foldl noteAccount ∅
  let sends :=
    fun account => (accounts.get account).balanceWritable && (accounts.get account).nonceWritable
  let receives := fun account => (accounts.get account).balanceWritable &&
    (accounts.get account).noncePresent
  let sender := Text.trimSpace item.sender
  let receiver := Text.trimSpace item.receiver
  let fallback := accounts.sortedKeys.filter sends
  -- a receiver that is declared as such is the last choice for the sender
  let candidates := fallback.filter fun account => !receives receiver || account ≠ receiver
  let resolved := if sends sender then sender else (candidates ++ fallback).headD sender
  (resolved, if receives receiver then receiver
    else ((accounts.sortedKeys.filter fun account => account ≠ resolved && receives account).headD
      receiver))

/-- Accounts come into being only under keys that the transaction declares to write. -/
def ensureDeclaredAccount (account : String) (amount : Int) (declaredWrites : List String) :
    TxProg Unit := do
  (if "balance:" ++ account ∈ declaredWrites then do
    let value ← Prog.read ("balance:" ++ account)
    (if value = "" then setBalance account amount else return ())
  else return ())
  (if "nonce:" ++ account ∈ declaredWrites then do
    let value ← Prog.read ("nonce:" ++ account)
    (if value = "" then setNonce account 0 else return ())
  else return ())

section Semantics

variable (digests : Digests) (defaultInitialBalance : Int) (shardID : String)

/-- The last branch of `executeTransaction`. -/
def executeTransfer (item : SignedTransaction) : TxProg (Option TxError) := do
  let sender := (transferAccounts item).1
  let receiver := (transferAccounts item).2
  let declaredWrites := (declaredAccess item shardID).2
  ensureDeclaredAccount sender defaultInitialBalance declaredWrites
  ensureDeclaredAccount receiver 0 declaredWrites
  let expectedNonce ← nonce sender
  if item.nonce ≠ expectedNonce then
    return some (.nonceMismatch expectedNonce item.nonce)
  else if item.value ≤ 0 then
    return some .invalidValue
  else
    let available ← balance sender
    if available < item.value then
      return some .insufficientBalance
    else
      let senderBalance ← balance sender
      setBalance sender (Text.wrap (senderBalance - item.value))
      let receiverBalance ← balance receiver
      setBalance receiver (Text.wrap (receiverBalance + item.value))
      setNonce sender ((item.nonce + 1) % 2 ^ 64)
      applyCommutativeDeltas item.accessList
      return none

/-- `executeTransaction` up to the receipt. -/
def executeTx (item : SignedTransaction) : TxProg (Option TxError) := do
  applyDeclaredSemanticReads item.accessList
  if isPureCommutativeDelta item.accessList then
    applyCommutativeDeltas item.accessList
    return none
  else if isCrossShardTargetCommit item shardID then
    Prog.write (relayKey item) "1"
    return none
  else if isDirectAccessTransaction item then
    applyDirectAccessTransaction digests item
    return none
  else
    executeTransfer defaultInitialBalance shardID item

end Semantics

def batchSIObserve (r : ReadRecord String String) : ReadObservation where
  key := r.key
  value := r.value
  source := if r.own then "batch_si_private_write" else "batch_si_batch_snapshot"

/-! ## Batches -/

structure BatchSIExecutor where
  config : Config := {}
  defaultInitialBalance : Int := 1000000

structure TxExecutionResult (T : Type) where
  item : T
  delta : TxDelta

inductive ExecError where
  | unknownTransaction (id : String)
  /-- The message also names one of the undeclared keys. -/
  | undeclaredWrite (txID : String)
deriving DecidableEq, Repr

structure BatchStart (T : Type) where
  transactions : List (T × Nat)
  snapshot : Snapshot

namespace PlannedBlock

variable {T : Type} (body : T → SignedTransaction) (b : PlannedBlock T)

def executed : Block where
  shardID := b.shardID
  height := b.height
  blockHash := b.blockHash
  txList := b.txList.map body

/-- The maps `byID` and `blockIndex`. -/
def byID : GoMap String (T × Nat) :=
  b.txList.zipIdx.foldl (fun table entry => table.put (body entry.1).txID entry) ∅

end PlannedBlock

section Executor

variable {T : Type} (body : T → SignedTransaction) (digests : Digests)
  (root : (String → Option String) → String) (e : BatchSIExecutor) (b : PlannedBlock T)

abbrev txRun (snapshot : Snapshot) (item : T) : Option TxError × Trace String String :=
  Serial.outcome (batchSIQualifiedKey b.shardID)
    (fun item => executeTx digests e.defaultInitialBalance b.shardID (body item)) snapshot item

def executeTransaction (snapshot : Snapshot) (entry : T × Nat) : TxExecutionResult T :=
  let out := txRun body digests e b snapshot entry.1
  { item := entry.1
    delta := TxDelta.of entry.2 (body entry.1) (out.2.reads.map batchSIObserve) out.2.writes
      (Receipt.of (b.executed body) (body entry.1) out.1) }

/-- `batchSIValidateDeclaredWrites`. -/
def validateDeclaredWrites (item : SignedTransaction) (writes : GoMap String String)
    (shardID : String) : Bool :=
  writes.sortedKeys.all fun key => key ∈ (declaredAccess item shardID).2

/-- Check a result, apply its writes and complete its receipt. -/
def applyResult (working : Snapshot) (r : TxExecutionResult T) :
    Except ExecError (TxDelta × Snapshot) :=
  if validateDeclaredWrites (body r.item) r.delta.writeSet b.shardID then
    let next := Serial.applyWrites (batchSIQualifiedKey b.shardID) r.delta.writeSet working
    .ok ({ r.delta with receipt :=
      { r.delta.receipt with stateRootAfterTx := root next.find } }, next)
  else .error (.undeclaredWrite (body r.item).txID)

def materialize (working : Snapshot) :
    List (TxExecutionResult T) → Except ExecError (List TxDelta × Snapshot)
  | [] => .ok ([], working)
  | r :: rs => do
    let (delta, next) ← applyResult body root b working r
    let (deltas, final) ← materialize next rs
    return (delta :: deltas, final)

def batchTransactions (batch : Batch) : Except ExecError (List (T × Nat)) :=
  batch.orderedTransactionIDs.mapM fun id =>
    match (b.byID body).find id with
    | some entry => .ok entry
    | none => .error (.unknownTransaction id)

def BatchSIExecutor.workers : Nat :=
  if e.config.executionMode = .snapshotSerial then 1 else max 1 e.config.workerCount.toNat

/-- The execution of the batches from a working state on: what each batch started with, and the
outcome. -/
inductive Executes : Snapshot → List Batch → List (BatchStart T) →
    Except ExecError (List TxDelta × Snapshot) → Prop where
  | done {working : Snapshot} : Executes working [] [] (.ok ([], working))
  | unknown {working : Snapshot} {batch : Batch} {batches : List Batch} {err : ExecError} :
      batchTransactions body b batch = .error err →
        Executes working (batch :: batches) [] (.error err)
  | undeclared {working : Snapshot} {batch : Batch} {batches : List Batch}
      {transactions : List (T × Nat)} {results : List (TxExecutionResult T)} {err : ExecError} :
      batchTransactions body b batch = .ok transactions →
      WorkerPool.Completes (executeTransaction body digests e b working) transactions e.workers
        results →
      materialize body root b working results = .error err →
      Executes working (batch :: batches) [⟨transactions, working⟩] (.error err)
  | next {working next : Snapshot} {batch : Batch} {batches : List Batch}
      {transactions : List (T × Nat)} {results : List (TxExecutionResult T)} {deltas : List TxDelta}
      {starts : List (BatchStart T)} {rest : Except ExecError (List TxDelta × Snapshot)} :
      batchTransactions body b batch = .ok transactions →
      WorkerPool.Completes (executeTransaction body digests e b working) transactions e.workers
        results →
      materialize body root b working results = .ok (deltas, next) →
      Executes next batches starts rest →
      Executes working (batch :: batches) (⟨transactions, working⟩ :: starts)
        (rest.map fun run => (deltas ++ run.1, run.2))

/-- The transactions one after the other, each over what the earlier ones have left. -/
def serialExecute (working : Snapshot) : List (T × Nat) → Except ExecError (List TxDelta × Snapshot)
  | [] => .ok ([], working)
  | entry :: entries => do
    let (delta, next) ←
      applyResult body root b working (executeTransaction body digests e b working entry)
    let (deltas, final) ← serialExecute next entries
    return (delta :: deltas, final)

end Executor

end ChainLab.Execution.BatchSI
