import ChainLab.Data.Serial
import ChainLab.Execution.Transaction

/-!
# The serial executor

`SerialExecutor.ExecuteBlock` runs the transactions of a block in order.  Each one runs in an
overlay of the working state, and its writes go to their physical keys when it is done.  The
commitment over the working state is a parameter `root`, which sees the state as a function.
-/

namespace ChainLab.Execution

abbrev Snapshot := GoMap String String

/-! ## Physical keys -/

def qualified (shardID key : String) : String :=
  if Text.contains key "::" then key else shardID ++ "::" ++ key

/-- The `key` method of `serialBlockTxOverlay` and of `txOverlay`. -/
abbrev overlayKey (shardID key : String) : String := qualified shardID key

abbrev ariaQualifiedKey (shardID key : String) : String := qualified shardID key

abbrev groundhogQualifiedKey (shardID key : String) : String := qualified shardID key

/-! ## Results -/

structure ReadObservation where
  key : String
  value : String
  source : String
deriving DecidableEq, Repr

structure TxDelta where
  txID : String
  originalIndex : Nat
  readSet : List ReadObservation
  writeSet : GoMap String String
  receipt : Receipt
  success : Bool
  error : Option TxError
deriving DecidableEq

/-- The parts of `execution.Result` that depend on the transactions. -/
structure BlockResult where
  blockHash : String
  height : Nat
  stateRootBefore : String
  stateRootAfter : String
  receipts : List Receipt
  txDeltas : List TxDelta
  stateUpdates : Snapshot
  successfulTxs : Nat
  failedTxs : Nat

def TxDelta.of (index : Nat) (item : SignedTransaction) (reads : List ReadObservation)
    (writes : GoMap String String) (receipt : Receipt) : TxDelta where
  txID := item.txID
  originalIndex := index
  readSet := reads
  writeSet := writes
  receipt := receipt
  success := receipt.success
  error := receipt.error

/-- Read records as an overlay reports them: `ownSource` for its own writes. -/
def observe (ownSource : String) (r : ReadRecord String String) : ReadObservation where
  key := r.key
  value := r.value
  source := if r.own then ownSource else "state_snapshot_overlay"

/-! ## The block loop -/

section

variable (digests : Digests) (root : (String → Option String) → String)
  (defaultInitialBalance : Int) (b : Block)

abbrev txOutcome (working : Snapshot) (item : SignedTransaction) :
    Option TxError × Trace String String :=
  Serial.outcome (overlayKey b.shardID) (executeTx digests defaultInitialBalance b.shardID)
    working item

/-- The loop of `ExecuteBlockWithCommitment`, from transaction number `index` on. -/
def serialLoop (index : Nat) (working : Snapshot) : List SignedTransaction → List TxDelta × Snapshot
  | [] => ([], working)
  | item :: items =>
    let out := txOutcome digests defaultInitialBalance b working item
    let next := Serial.applyWrites (overlayKey b.shardID) out.2.writes working
    let receipt := { Receipt.of b item out.1 with stateRootAfterTx := root next.find }
    let delta := TxDelta.of index item (out.2.reads.map (observe "state_snapshot_overlay"))
      out.2.writes receipt
    let rest := serialLoop (index + 1) next items
    (delta :: rest.1, rest.2)

/-- `SerialExecutor.ExecuteBlock`. -/
def serialExecuteBlock (base : Snapshot) : BlockResult :=
  let run := serialLoop digests root defaultInitialBalance b 0 base b.txList
  { blockHash := b.blockHash
    height := b.height
    stateRootBefore := root base.find
    stateRootAfter := root run.2.find
    receipts := run.1.map TxDelta.receipt
    txDeltas := run.1
    stateUpdates := run.2
    successfulTxs := run.1.countP fun delta => delta.receipt.success
    failedTxs := run.1.countP fun delta => !delta.receipt.success }

variable {digests root defaultInitialBalance b}

def TxDelta.effect (delta : TxDelta) : GoMap String String × Receipt :=
  (delta.writeSet, { delta.receipt with stateRootAfterTx := "" })

lemma serialLoop_eq (index : Nat) (working : Snapshot) (items : List SignedTransaction) :
    (serialLoop digests root defaultInitialBalance b index working items).2 =
        (Serial.serialFrom (overlayKey b.shardID)
          (executeTx digests defaultInitialBalance b.shardID) working items).2 ∧
      (serialLoop digests root defaultInitialBalance b index working items).1.map TxDelta.effect =
        List.zipWith (fun item out => (out.2.writes, Receipt.of b item out.1)) items
          (Serial.serialFrom (overlayKey b.shardID)
            (executeTx digests defaultInitialBalance b.shardID) working items).1 := by
  induction items generalizing index working with
  | nil => exact ⟨rfl, rfl⟩
  | cons item items ih =>
    rcases ih (index + 1) (Serial.applyWrites (overlayKey b.shardID)
      (txOutcome digests defaultInitialBalance b working item).2.writes working) with ⟨hst, hout⟩
    refine ⟨hst, ?_⟩
    simp only [serialLoop, Serial.serialFrom, List.map_cons, List.zipWith_cons_cons, hout]
    rfl

lemma serialExecuteBlock_eq (base : Snapshot) (items : List SignedTransaction) :
    (serialExecuteBlock digests root defaultInitialBalance { b with txList :=
      items } base).stateUpdates =
      (Serial.serialFrom (overlayKey b.shardID) (executeTx digests defaultInitialBalance b.shardID)
        base items).2 ∧
    (serialExecuteBlock digests root defaultInitialBalance { b with txList := items }
        base).txDeltas.map TxDelta.effect =
      List.zipWith (fun item out => (out.2.writes, Receipt.of b item out.1)) items
        (Serial.serialFrom (overlayKey b.shardID)
          (executeTx digests defaultInitialBalance b.shardID) base items).1 :=
  serialLoop_eq 0 base items

end

end ChainLab.Execution
