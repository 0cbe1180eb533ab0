import ChainLab.Data.Text
import ChainLab.State.Commitment

/-!
# The state database

The values of a shard under qualified keys, with the commitment that `DB.Root` reads.  Values and
commitment are updated side by side by `Set`, `ApplyBatch` and `ApplyDeterministicBatch`, and
rebuilt by `Restore`; `applyStateKVs` is the applier of the log replay, which updates values only.
-/

namespace ChainLab.State

/-- The values by qualified key. -/
abbrev Snapshot := GoMap String String

/-- `state.StateKV`: one change of a block, with the guards under which it is applied. -/
structure StateKV where
  key : String
  value : String := ""
  txIDs : List String := []
  updateSemantics : String := ""
  delta : Int := 0
  baseValue : String := ""
  baseValueDigest : String := ""
  applyOrigin : String := ""
  deltaKind : String := ""
  hasInitialValue : Bool := false
  initialValue : Int := 0
  deltaID : String := ""
  blockHeight : Nat := 0
  routingOrdinal : Nat := 0
  previousVersion : Nat := 0
  producedVersion : Nat := 0
  orderingNoop : Bool := false
deriving DecidableEq, Repr

/-- A change whose base value is not the one found. -/
structure CASMismatchError where
  key : String
  expectedDigest : String
  actualDigest : String
  deltaID : String
  txIDs : List String
  blockHeight : Nat
deriving DecidableEq, Repr

/-- The text of `Error()`. -/
def CASMismatchError.message (e : CASMismatchError) : String :=
  let id := if e.deltaID = "" then "|".intercalate e.txIDs else e.deltaID
  "state CAS mismatch key=" ++ e.key ++ " expected_digest=" ++ e.expectedDigest ++
    " actual_digest=" ++ e.actualDigest ++ " delta_or_tx=" ++ id ++
    " block_height=" ++ Text.formatUint e.blockHeight

variable (sha : Sha)

/-! ## Changes -/

def stateValueDigest (value : String) : String :=
  sha.text value

/-- `DB.key`. -/
def qualifiedKey (nameSpace key : String) : String :=
  if Text.contains key "::" then key else nameSpace ++ "::" ++ key

/-- One change: an ordering no-op, an addition, or a write that may be guarded by the digest of
the value it replaces. -/
def applyStateKV (values : Snapshot) (key : String) (item : StateKV) :
    Except CASMismatchError Snapshot :=
  if item.orderingNoop then .ok values
  else if item.updateSemantics = "commutative_delta" then
    let currentText := values.get key
    let current := if currentText = "" ∧ item.hasInitialValue then item.initialValue
      else (Text.parseInt currentText).number 0
    .ok (values.put key (Text.formatInt (Text.wrap (current + item.delta))))
  else if item.producedVersion = 0 ∧ item.baseValueDigest ≠ "" ∧
      stateValueDigest sha (values.get key) ≠ item.baseValueDigest then
    .error ⟨key, item.baseValueDigest, stateValueDigest sha (values.get key), item.deltaID,
      item.txIDs, item.blockHeight⟩
  else .ok (values.put key item.value)

/-- The changes in order, up to the first failure. -/
def applyStateKVs (nameSpace : String) (values : Snapshot) (updates : List StateKV) :
    Except CASMismatchError Snapshot :=
  updates.foldlM (fun values item => applyStateKV sha values (qualifiedKey nameSpace item.key) item)
    values

/-! ## The database -/

/-- `state.DB`, with the place in the log that `PersistDelta` continues from. -/
structure DB where
  nameSpace : String
  values : Snapshot := ∅
  commitment : Tree := .nil
  walGeneration : Nat := 1
  lastHeight : Nat := 0
  lastBlockHash : String := ""

namespace DB

def new (nameSpace : String) : DB :=
  { nameSpace := if nameSpace = "" then "s0" else nameSpace }

def key (db : DB) (key : String) : String :=
  qualifiedKey db.nameSpace key

def get (db : DB) (key : String) : String :=
  db.values.get (db.key key)

def set (db : DB) (key value : String) : DB :=
  { db with
    values := db.values.put (db.key key) value
    commitment := db.commitment.insert (rank sha) (db.key key) value }

/-- Unguarded writes; the entries stand in the order in which the range visits them. -/
def applyBatch (db : DB) (updates : Snapshot) : DB :=
  updates.entries.foldl (fun db e => db.set sha e.1 e.2) db

/-- The items before the one that fails stay applied. -/
def applyDeterministicBatch (db : DB) : List StateKV → DB × Option CASMismatchError
  | [] => (db, none)
  | item :: updates =>
    match applyStateKV sha db.values (db.key item.key) item with
    | .error err => (db, some err)
    | .ok values =>
      applyDeterministicBatch
        { db with
          values := values
          commitment := db.commitment.insert (rank sha) (db.key item.key)
            (values.get (db.key item.key)) } updates

/-- The commitment is built anew from the values. -/
def restore (db : DB) (snapshot : Snapshot) : DB :=
  { db with values := snapshot, commitment := treeOf sha snapshot }

/-- The hash of the commitment; it does not look at the values. -/
def root (db : DB) : String :=
  Tree.hash sha db.commitment

end DB

end ChainLab.State
