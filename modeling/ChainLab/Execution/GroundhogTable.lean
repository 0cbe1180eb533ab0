import ChainLab.Data.Locked
import ChainLab.Execution.Groundhog

/-!
# The Groundhog reservation table

`reserveTransaction` applies the modifications of one transaction to the objects of a table.  If one
of them conflicts, the objects it has touched are restored, so the table stays what it was.  Workers
call it concurrently: `Reserves` are the possible outcomes, over all interleavings of what the calls
do under the locks of their keys.  What the workers of an executor do is a parameter, one such
outcome for each table and list of calls.
-/

namespace ChainLab.Execution.Groundhog

open List

/-! ## Conflicts -/

structure Conflict where
  key : String
  reason : String
deriving DecidableEq, Repr

/-- `groundhogConflictParts` of the message; no reason has a colon in it. -/
def Conflict.parts (c : Conflict) : String × String :=
  if c.key = "" then ("", ":" ++ c.reason) else (c.key, c.reason)

structure TableBase where
  shardID : String
  base : Snapshot
  orderedSetLimit : Int
  codec : Codec

/-- `newGroundhogReservationTable`; the table starts without objects. -/
def TableBase.new (codec : Codec) (shardID : String) (base : Snapshot) (orderedSetLimit : Int) :
    TableBase where
  shardID := shardID
  base := base
  orderedSetLimit := if orderedSetLimit < 1 then orderedSetInitialLimit else orderedSetLimit
  codec := codec

namespace TableBase

variable (t : TableBase)

/-! ## Objects -/

/-- `decodeGroundhogOrderedSet`. -/
def decodeOrderedSet (value : String) (defaultLimit : Int) : OrderedSet :=
  let defaultLimit := if defaultLimit < 1 then orderedSetInitialLimit else defaultLimit
  let defaultLimit := if orderedSetMaximumLimit < defaultLimit then orderedSetMaximumLimit
    else defaultLimit
  let out : OrderedSet := { limit := defaultLimit }
  let out := if Text.trimSpace value ≠ "" then t.codec.unmarshal value out else out
  let out := if out.limit < 1 then { out with limit := defaultLimit } else out
  if orderedSetMaximumLimit < out.limit then { out with limit := orderedSetMaximumLimit } else out

def liveEntries (set : OrderedSet) : Finmap fun _ : String => Nat :=
  set.entries.foldl (fun m entry => if set.cleared < entry.1 then m.insert entry.2 entry.1 else m) ∅

def newObject (m : Modification) : Object :=
  match m.change with
  | .integerAdd baseInt _ => .integer baseInt 0 0
  | .bytesSet _ => .bytes ""
  | .orderedSetInsert _ _ | .orderedSetClear _ | .orderedSetGrow _ =>
    let set :=
      t.decodeOrderedSet (t.base.get (groundhogQualifiedKey t.shardID m.key)) t.orderedSetLimit
    .orderedSet set.limit set.cleared (liveEntries set)

/-- An integer reservation.  Debits and credits are kept apart, so that a credit of the block does
not pay for a debit of the block. -/
def addInteger (key : String) (objectBase positive negative baseInt delta : Int) :
    Except Conflict Object :=
  if objectBase ≠ baseInt then .error ⟨key, "base_value_mismatch"⟩
  else if objectBase < 0 then .error ⟨key, "negative_base_value"⟩
  else if delta < 0 then
    match addInt64 negative delta with
    | none => .error ⟨key, "integer_overflow"⟩
    | some next =>
      if wouldUnderflowNonnegative objectBase next then
        .error ⟨key, "nonnegative_constraint"⟩
      else if (finalIntValue objectBase next positive).isNone then
        .error ⟨key, "integer_overflow"⟩
      else .ok (.integer objectBase positive next)
  else
    match addInt64 positive delta with
    | none => .error ⟨key, "integer_overflow"⟩
    | some next =>
      if (finalIntValue objectBase negative next).isNone then
        .error ⟨key, "integer_overflow"⟩
      else .ok (.integer objectBase next negative)

/-- The new state of an object, or the conflict. -/
def applyChange (key : String) (object : Object) (change : Change) : Except Conflict Object :=
  match object, change with
  | .integer objectBase positive negative, .integerAdd baseInt delta =>
    addInteger key objectBase positive negative baseInt delta
  | .bytes value, .bytesSet bytes =>
    if value ≠ "" ∧ value ≠ bytes then .error ⟨key, "different_bytes_values"⟩
    else .ok (.bytes bytes)
  | .orderedSet limit cleared byHash, .orderedSetGrow increase =>
    if increase < 0 then .error ⟨key, "negative_limit_increase"⟩
    else if orderedSetMaximumLimit - limit < increase then
      .error ⟨key, "ordered_set_limit_overflow"⟩
    else .ok (.orderedSet (limit + increase) cleared byHash)
  | .orderedSet limit cleared byHash, .orderedSetClear threshold =>
    -- duplicates and capacity still count what is cleared in this block
    .ok (.orderedSet limit (max cleared threshold) byHash)
  | .orderedSet limit cleared byHash, .orderedSetInsert tag hash =>
    if hash ∈ byHash then .error ⟨key, "duplicate_hash"⟩
    else if limit ≤ (byHash.keys.card : Int) then .error ⟨key, "ordered_set_capacity"⟩
    else .ok (.orderedSet limit cleared (byHash.insert hash tag))
  | _, _ => .error ⟨key, "mixed_object_types"⟩

def applyModification (objects : Objects) (m : Modification) : Except Conflict Objects :=
  (applyChange m.key ((objects.lookup m.key).getD (t.newObject m)) m.change).map
    (objects.insert m.key)

/-! ## Reservations -/

def reserveTransaction (objects : Objects) (modifications : List Modification) :
    Except Conflict Objects :=
  modifications.foldlM t.applyModification objects

def operations : Keyed String Object Modification Conflict where
  key := Modification.key
  step m object := applyChange m.key (object.getD (t.newObject m)) m.change

/-- The keys that `lockModificationKeys` locks, in that order. -/
def lockKeys (modifications : List Modification) : List String :=
  ((modifications.map Modification.key).filter (· ≠ "")).dedup.insertionSort (· ≤ ·)

lemma lockKeys_nodup (modifications : List Modification) : (lockKeys modifications).Nodup := by
  unfold lockKeys
  exact (perm_insertionSort _ _).nodup_iff.2 (nodup_dedup _)

lemma mem_lockKeys {modifications : List Modification} {m : Modification} (hm : m ∈ modifications)
    (hkey : m.key ≠ "") : m.key ∈ lockKeys modifications := by
  unfold lockKeys
  rw [mem_insertionSort, mem_dedup, mem_filter]
  exact ⟨mem_map_of_mem hm, by simpa using hkey⟩

/-- An outcome of concurrent reservations by a number of workers: the objects, and the conflict of
each transaction. -/
def Reserves (workers : Nat) (objects : Objects) (calls : List (List Modification))
    (outcome : Objects × List (Option Conflict)) : Prop :=
  ∃ conflicts : Fin calls.length → Option Conflict,
    Keyed.Completed t.operations lockKeys calls.get workers objects outcome.1 conflicts ∧
      outcome.2 = List.ofFn conflicts

/-! ## Materialization -/

/-- The entries of a set that are materialized, by tag and hash. -/
def sortedEntries (cleared : Nat) (byHash : Finmap fun _ : String => Nat) : List (Nat × String) :=
  (((Keyed.sortedKeys byHash).filterMap fun hash =>
    (byHash.lookup hash).map fun tag => (tag, hash)).filter fun entry =>
      cleared < entry.1).insertionSort fun entry entry' => toLex entry ≤ toLex entry'

def materializeObject (key : String) (object : Object) : Except String String :=
  match object with
  | .integer baseInt positive negative =>
    match finalIntValue baseInt negative positive with
    | none => .error ("groundhog materialization integer constraint key=" ++ key)
    | some value => .ok (Text.formatInt value)
  | .bytes value => .ok value
  | .orderedSet limit cleared byHash =>
    .ok (t.codec.marshal ⟨limit, cleared, sortedEntries cleared byHash⟩)

def materialize (objects : Objects) : Except String Snapshot :=
  (Keyed.sortedKeys objects).foldlM (fun working key =>
    match objects.lookup key with
    | none => .ok working
    | some object => (t.materializeObject key object).map
        (working.put (groundhogQualifiedKey t.shardID key))) t.base

end TableBase

/-! ## Executors -/

/-- A number of workers that reserve a batch of calls concurrently, in one of the possible ways. -/
structure Workers where
  reserve : TableBase → Nat → Objects → List (List Modification) → Objects × List (Option Conflict)
  reserves : ∀ (t : TableBase) count objects calls, 0 < count →
    (∀ ms ∈ calls, ∀ m ∈ ms, m.key ≠ "") →
    t.Reserves count objects calls (reserve t count objects calls)

/-- Workers that finish the calls of a batch in turn. -/
def Workers.inTurn : Workers where
  reserve t _ objects calls :=
    (t.operations.serial objects ((List.finRange calls.length).map calls.get),
      List.ofFn (Keyed.failureIn t.operations calls.get objects (List.finRange calls.length)))
  reserves t count objects calls hcount hkeys := by
    refine ⟨_, Keyed.completed_of_order ?_ ?_
      (Keyed.linear_of_order (nodup_finRange _) mem_finRange) ?_, rfl⟩
    · intro i m hm
      exact TableBase.mem_lockKeys hm (hkeys _ (get_mem calls i) m hm)
    · intro i
      exact TableBase.lockKeys_nodup _
    · intro k i hk
      obtain ⟨hlt, rfl⟩ := List.getElem?_eq_some_iff.1 hk
      simpa using hcount

structure GroundhogReceipt where
  txID : String
  blockHash : String
  height : Nat
  success : Bool
  error : String
  executionCost : Int := 1
  stateKeys : List String
  stateRootAfterTx : String
deriving DecidableEq, Repr

structure GroundhogDelta where
  txID : String
  originalIndex : Nat
  readSet : List ReadObservation
  writeSet : GoMap String String
  receipt : GroundhogReceipt
  success : Bool
  error : String

structure GroundhogResult where
  blockHash : String
  height : Nat
  stateRootBefore : String
  stateRootAfter : String
  receipts : List GroundhogReceipt
  txDeltas : List GroundhogDelta
  stateUpdates : Snapshot
  successfulTxs : Nat
  failedTxs : Nat

section Executors

variable (codec : Codec) (digests : Digests) (root : (String → Option String) → String)
  (e : GroundhogExecutor)

def workerCountFor (size : Nat) : Nat :=
  let workers := max e.workerCount 1
  if 0 < size ∧ size < workers then size else workers

lemma workerCountFor_pos (size : Nat) : 0 < workerCountFor e size := by
  unfold workerCountFor
  dsimp only
  split <;> omega

def executeAttempts (shardID : String) (base : Snapshot) (items : List SignedTransaction) :
    List Attempt :=
  items.zipIdx.map fun entry => interpretTransaction digests e shardID base entry.2 entry.1

/-- The error of a fixed block that has a conflict: the first one in block order. -/
def canonicalConflict (t : TableBase) : Objects → List Attempt → String
  | _, [] => "groundhog concurrent reservation rejected a serially valid fixed block"
  | objects, attempt :: attempts =>
    match t.reserveTransaction objects attempt.modifications with
    | .ok next => canonicalConflict t next attempts
    | .error conflict =>
      "groundhog fixed block conflict tx=" ++ attempt.tx.txID ++ " key=" ++ conflict.parts.1 ++
        " reason=" ++ conflict.parts.2

def GroundhogReceipt.of (b : Block) (afterRoot : String) (attempt : Attempt) :
    GroundhogReceipt where
  txID := attempt.tx.txID
  blockHash := b.blockHash
  height := b.height
  success := attempt.terminalError = ""
  error := attempt.terminalError
  stateKeys := attempt.tx.stateKeys
  stateRootAfterTx := afterRoot

/-- The delta of an attempt: a success writes the final values of the keys it modifies. -/
def GroundhogDelta.of (b : Block) (working : Snapshot) (afterRoot : String) (attempt : Attempt) :
    GroundhogDelta where
  txID := attempt.tx.txID
  originalIndex := attempt.index
  readSet := attempt.reads
  writeSet := if attempt.terminalError = "" then
      attempt.modifications.foldl (fun writes m =>
        writes.put m.key (working.get (groundhogQualifiedKey b.shardID m.key))) ∅
    else ∅
  receipt := GroundhogReceipt.of b afterRoot attempt
  success := attempt.terminalError = ""
  error := attempt.terminalError

def executeBlock (workers : Workers) (b : Block) (base : Snapshot) :
    Except String GroundhogResult :=
  let t := TableBase.new codec b.shardID base e.orderedSetLimit
  let attempts := executeAttempts digests e b.shardID base b.txList
  let outcome := workers.reserve t (workerCountFor e b.txList.length) ∅
    (attempts.map Attempt.modifications)
  if outcome.2.all Option.isNone then
    (t.materialize outcome.1).map fun working =>
      { blockHash := b.blockHash
        height := b.height
        stateRootBefore := root base.find
        stateRootAfter := root working.find
        receipts := attempts.map (GroundhogReceipt.of b (root working.find))
        txDeltas := attempts.map (GroundhogDelta.of b working (root working.find))
        stateUpdates := working
        successfulTxs := attempts.countP fun attempt => attempt.terminalError = ""
        failedTxs := attempts.countP fun attempt => attempt.terminalError ≠ "" }
  else .error (canonicalConflict t ∅ attempts)

end Executors

end ChainLab.Execution.Groundhog
