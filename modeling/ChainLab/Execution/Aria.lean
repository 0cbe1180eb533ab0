import ChainLab.Execution.SerialExecutor

/-!
# The Aria executor

An epoch executes all its transactions over one snapshot, reserves what they read and wrote for the
lowest transaction number, and commits those that pass the conflict rules.  The leader selects the
transactions of a block with one epoch (`selectCandidateTransactions`), whose deltas are then
materialized; `executeBlock` repeats epochs until nothing is deferred.  Workers only fill the slots
of the attempts, so an epoch is the list of attempts in candidate order.
-/

namespace ChainLab.Execution

structure AriaExecutor where
  defaultInitialBalance : Int := 1000000
  maximumEpochs : Int := 0
  reordering : Bool := true
  readOnlyOptimization : Bool := true
  retryNonceGaps : Bool := true

structure AriaAttempt where
  index : Nat
  tx : SignedTransaction
  delta : TxDelta
  retryReason : Option String
deriving DecidableEq

structure AriaConflict where
  waw : Bool
  raw : Bool
  war : Bool
deriving DecidableEq, Repr

/-- The lowest number of a reader and of a writer of each key; zero means none. -/
structure AriaReservationTable where
  minReader : GoMap String Nat := ∅
  minWriter : GoMap String Nat := ∅

namespace Aria

/-! ## Execution of an epoch -/

/-- `ariaRetryableFailure`: a nonce from the future may become valid in a later epoch. -/
def retryableFailure (receipt : Receipt) (enabled : Bool) : Option String :=
  match receipt.error with
  | some (.nonceMismatch expected got) =>
    if enabled && !receipt.success && expected < got then
      some ("aria_nonce_gap_expected_" ++ Text.formatUint expected ++ "_got_" ++
        Text.formatUint got)
    else none
  | _ => none

section Epoch

variable (digests : Digests) (e : AriaExecutor)

def attempt (b : Block) (snapshot : Snapshot) (index : Nat) (item : SignedTransaction) :
    AriaAttempt :=
  let out := txOutcome digests e.defaultInitialBalance b snapshot item
  let receipt := Receipt.of b item out.1
  { index := index
    tx := item
    delta := TxDelta.of index item
      (out.2.reads.map (observe "state_snapshot_overlay_local_write")) out.2.writes receipt
    retryReason := retryableFailure receipt e.retryNonceGaps }

abbrev Pending := List (Nat × SignedTransaction)

def executeEpoch (b : Block) (snapshot : Snapshot) (pending : Pending) : List AriaAttempt :=
  pending.map fun entry => attempt digests e b snapshot entry.1 entry.2

end Epoch

/-! ## Reservations -/

def uniqueReadKeys (reads : List ReadObservation) : List String :=
  (((reads.map ReadObservation.key).filter (· ≠ "")).dedup).insertionSort (· ≤ ·)

def sortedWriteKeys (writes : GoMap String String) : List String :=
  writes.sortedKeys.filter (· ≠ "")

def failedWithoutWrites (attempt : AriaAttempt) : Bool :=
  attempt.delta.writeSet.len = 0 && !attempt.delta.receipt.success

def reserves (attempt : AriaAttempt) : Bool :=
  attempt.retryReason.isNone && !failedWithoutWrites attempt

def reserve (tid : Nat) (table : GoMap String Nat) (key : String) : GoMap String Nat :=
  if table.get key = 0 ∨ tid < table.get key then table.put key tid else table

/-- The reservations of the attempts from position `position` on. -/
def buildReservationsFrom (table : AriaReservationTable) (position : Nat) :
    List AriaAttempt → AriaReservationTable
  | [] => table
  | attempt :: attempts =>
    buildReservationsFrom (if reserves attempt then
        { minReader :=
          (uniqueReadKeys attempt.delta.readSet).foldl (reserve (position + 1)) table.minReader
          minWriter := (sortedWriteKeys attempt.delta.writeSet).foldl (reserve (position + 1))
            table.minWriter }
      else table)
      (position + 1) attempts

/-- `buildAriaReservations`. -/
def buildReservations (attempts : List AriaAttempt) : AriaReservationTable :=
  buildReservationsFrom {} 0 attempts

/-- Some key is reserved for a number below `tid`. -/
def reservedBelow (table : GoMap String Nat) (tid : Nat) (keys : List String) : Bool :=
  keys.any fun key => table.get key ≠ 0 && table.get key < tid

/-- `analyzeAriaConflict`. -/
def analyzeConflict (attempt : AriaAttempt) (tid : Nat) (table : AriaReservationTable) :
    AriaConflict where
  waw := reservedBelow table.minWriter tid (sortedWriteKeys attempt.delta.writeSet)
  raw := reservedBelow table.minWriter tid (uniqueReadKeys attempt.delta.readSet)
  war := reservedBelow table.minReader tid (sortedWriteKeys attempt.delta.writeSet)

/-- `ariaConflictReason`. -/
def conflictReason (conflict : AriaConflict) (reordering : Bool) : String :=
  let parts := (if conflict.waw then ["waw"] else []) ++ (if conflict.raw then ["raw"] else []) ++
    (if conflict.war then ["war"] else [])
  let mode := if reordering then "rule2" else "rule1"
  if parts = [] then "aria_" ++ mode ++ "_deferred"
  else "aria_" ++ mode ++ "_" ++ "_".intercalate parts

/-! ## The commit rules -/

/-- The reason why an attempt is deferred, `none` if it commits. -/
def deferral (e : AriaExecutor) (table : AriaReservationTable) (position : Nat)
    (attempt : AriaAttempt) : Option String :=
  match attempt.retryReason with
  | some reason => some reason
  | none =>
    if failedWithoutWrites attempt then none
    else if e.readOnlyOptimization && attempt.delta.writeSet.len = 0 then none
    else
      let conflict := analyzeConflict attempt (position + 1) table
      -- rule 1 without reordering, rule 2 with it
      let canCommit := if e.reordering then !conflict.waw && !(conflict.war && conflict.raw)
        else !conflict.waw && !conflict.raw
      if canCommit then none else some (conflictReason conflict e.reordering)

structure EpochSplit where
  committed : List AriaAttempt := []
  deferred : List (AriaAttempt × String) := []

/-- The commit phase of an epoch from position `position` on.  At most `limit` attempts commit. -/
def commitPhase (e : AriaExecutor) (table : AriaReservationTable) (limit position : Nat)
    (split : EpochSplit) : List AriaAttempt → EpochSplit
  | [] => split
  | attempt :: attempts =>
    let next : EpochSplit :=
      if limit ≤ split.committed.length then
        { split with deferred := split.deferred ++ [(attempt, "aria_candidate_limit")] }
      else match deferral e table position attempt with
        | none => { split with committed := split.committed ++ [attempt] }
        | some reason => { split with deferred := split.deferred ++ [(attempt, reason)] }
    commitPhase e table limit (position + 1) next attempts

/-! ## Selection by the leader -/

structure CandidateSelection where
  selected : List SignedTransaction := []
  selectedDeltas : List TxDelta := []
  deferred : List SignedTransaction := []
  deferredReasons : GoMap String String := ∅
  committedIndexes : List Nat := []
  deferredIndexes : List Nat := []

section Selection

variable (digests : Digests) (e : AriaExecutor)

def effectiveLimit (limit : Int) (candidates : List SignedTransaction) : Nat :=
  if limit ≤ 0 ∨ (candidates.length : Int) < limit then candidates.length else limit.toNat

def allPending (items : List SignedTransaction) : Pending :=
  items.zipIdx.map fun entry => (entry.2, entry.1)

/-- The epoch behind a selection. -/
def selectionSplit (shardID : String) (height : Nat) (candidates : List SignedTransaction)
    (base : Snapshot) (limit : Int) : EpochSplit :=
  let b : Block := { shardID := shardID, height := height, txList := candidates }
  let attempts := executeEpoch digests e b base (allPending candidates)
  commitPhase e (buildReservations attempts) (effectiveLimit limit candidates) 0 {} attempts

def selectCandidateTransactions (shardID : String) (height : Nat)
    (candidates : List SignedTransaction) (base : Snapshot) (limit : Int) : CandidateSelection :=
  let split := selectionSplit digests e shardID height candidates base limit
  { selected := split.committed.map AriaAttempt.tx
    selectedDeltas := split.committed.map AriaAttempt.delta
    deferred := split.deferred.map fun entry => entry.1.tx
    deferredReasons := split.deferred.foldl (fun m entry => m.put entry.1.tx.txID entry.2) ∅
    committedIndexes := split.committed.map AriaAttempt.index
    deferredIndexes := split.deferred.map fun entry => entry.1.index }

end Selection

/-! ## Materialization -/

section

variable (root : (String → Option String) → String)

/-- Apply a delta and write the root of the new state into its receipt. -/
def materializeDelta (b : Block) (working : Snapshot) (index : Nat) (delta : TxDelta) :
    TxDelta × Snapshot :=
  let next := Serial.applyWrites (ariaQualifiedKey b.shardID) delta.writeSet working
  let receipt := { delta.receipt with
    blockHash := b.blockHash, height := b.height, stateRootAfterTx := root next.find }
  ({ delta with
      originalIndex := index, receipt := receipt, success := receipt.success,
      error := receipt.error }, next)

/-- The loop over the transactions of the block, with the checks of each one. -/
def materializeLoop (b : Block) (working : Snapshot) (index : Nat) :
    List SignedTransaction → List SignedTransaction → List TxDelta →
      Except String (List TxDelta × Snapshot)
  | item :: items, selected :: selection, delta :: deltas =>
    if item.txID = "" ∨ selected.txID ≠ item.txID then
      .error ("aria selected transaction mismatch at index " ++ toString index ++ ": block=" ++
        item.txID ++ " selection=" ++ selected.txID)
    else if delta.txID ≠ item.txID then
      .error ("aria selected delta mismatch at index " ++ toString index ++ ": block=" ++
        item.txID ++ " delta=" ++ delta.txID)
    else
      let step := materializeDelta root b working index delta
      match materializeLoop b step.2 (index + 1) items selection deltas with
      | .error err => .error err
      | .ok rest => .ok (step.1 :: rest.1, rest.2)
  | _, _, _ => .ok ([], working)

def materializeCandidateSelection (b : Block) (base : Snapshot) (selection : CandidateSelection) :
    Except String BlockResult :=
  if b.txList.length ≠ selection.selected.length ∨
      selection.selected.length ≠ selection.selectedDeltas.length then
    .error ("aria selected materialization size mismatch: block=" ++ toString b.txList.length ++
      " selected=" ++ toString selection.selected.length ++
      " deltas=" ++ toString selection.selectedDeltas.length)
  else
    match materializeLoop root b base 0 b.txList selection.selected selection.selectedDeltas with
    | .error err => .error err
    | .ok (deltas, working) => .ok
        { blockHash := b.blockHash
          height := b.height
          stateRootBefore := root base.find
          stateRootAfter := root working.find
          receipts := deltas.map TxDelta.receipt
          txDeltas := deltas
          stateUpdates := working
          successfulTxs := deltas.countP fun delta => delta.receipt.success
          failedTxs := deltas.countP fun delta => !delta.receipt.success }

end

/-! ## Whole blocks -/

section

variable (digests : Digests) (root : (String → Option String) → String) (e : AriaExecutor)
    (b : Block)

/-- The commit of one epoch: the deltas that became final, the new working state. -/
def applyCommitted (working : Snapshot) : List AriaAttempt → List (Nat × TxDelta) × Snapshot
  | [] => ([], working)
  | attempt :: attempts =>
    let next := Serial.applyWrites (ariaQualifiedKey b.shardID) attempt.delta.writeSet working
    let receipt := { attempt.delta.receipt with stateRootAfterTx := root next.find }
    let delta := { attempt.delta with
      receipt := receipt, success := receipt.success, error := receipt.error }
    let rest := applyCommitted next attempts
    ((attempt.index, delta) :: rest.1, rest.2)

/-- The attempts of an epoch that commit, and those that wait for the next one.  There is no limit
here: as many as there are attempts may commit. -/
def epochSplit (working : Snapshot) (pending : Pending) : EpochSplit :=
  let attempts := executeEpoch digests e b working pending
  commitPhase e (buildReservations attempts) attempts.length 0 {} attempts

def nextPending (split : EpochSplit) : Pending :=
  split.deferred.map fun entry => (entry.1.index, entry.1.tx)

def noProgress (epoch : Nat) (split : EpochSplit) : String :=
  "aria epoch " ++ toString epoch ++ " made no progress: pending=" ++
    ",".intercalate (split.deferred.map fun entry => entry.1.tx.txID) ++ " reasons=" ++
    ",".intercalate (split.deferred.map Prod.snd)

/-- The epochs of a block; `left` counts the epochs that may still follow. -/
def epochLoop (maximumEpochs : Nat) : (left epoch : Nat) → Snapshot → Pending →
    List (Nat × TxDelta) →
      Except String (List (Nat × TxDelta) × Snapshot)
  | _, _, working, [], final => .ok (final, working)
  | 0, _, _, pending, _ =>
    .error ("aria maximum epochs exceeded: completed=" ++
      toString (b.txList.length - pending.length) ++ " pending=" ++ toString pending.length ++
      " limit=" ++ toString maximumEpochs)
  | left + 1, epoch, working, pending, final =>
    let split := epochSplit digests e b working pending
    if split.committed = [] then .error (noProgress epoch split)
    else
      let step := applyCommitted root b working split.committed
      epochLoop maximumEpochs left (epoch + 1) step.2 (nextPending split) (final ++ step.1)

def epochBound : Nat :=
  if e.maximumEpochs ≤ 0 then b.txList.length + 1 else e.maximumEpochs.toNat

def executeBlock (base : Snapshot) : Except String BlockResult :=
  match epochLoop digests root e b (epochBound e b) (epochBound e b) 1 base (allPending b.txList)
    [] with
  | .error err => .error err
  | .ok (final, working) =>
    let byIndex : GoMap Nat TxDelta := final.foldl (fun m entry => m.put entry.1 entry.2) ∅
    match (List.range b.txList.length).find? fun index => (byIndex.find index).isNone with
    | some index =>
      .error ("aria missing final result for transaction " ++
        ((b.txList[index]?).map SignedTransaction.txID).getD "" ++ " at index " ++ toString index)
    | none =>
      let deltas := (List.range b.txList.length).filterMap byIndex.find
      .ok
        { blockHash := b.blockHash
          height := b.height
          stateRootBefore := root base.find
          stateRootAfter := root working.find
          receipts := deltas.map TxDelta.receipt
          txDeltas := deltas
          stateUpdates := working
          successfulTxs := deltas.countP fun delta => delta.receipt.success
          failedTxs := deltas.countP fun delta => !delta.receipt.success }

end

end Aria
end ChainLab.Execution
