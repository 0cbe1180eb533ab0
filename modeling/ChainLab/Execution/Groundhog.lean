import ChainLab.Execution.SerialExecutor

/-!
# The Groundhog executor

All transactions of a block are interpreted over the state at its start.  A transaction turns into
typed modifications of objects, and a reservation table accepts the modifications of a transaction
or none of them.  The result is materialized from the table.  Tables and the sets in them are finite
maps up to order, so that two tables are equal when they hold the same objects.  JSON is a
parameter.
-/

namespace ChainLab.Execution.Groundhog

/-! ## Objects and modifications -/

def orderedSetInitialLimit : Int := 64

def orderedSetMaximumLimit : Int := 65535

inductive Change where
  | integerAdd (baseInt delta : Int)
  | bytesSet (bytes : String)
  | orderedSetInsert (tag : Nat) (hash : String)
  | orderedSetClear (threshold : Nat)
  | orderedSetGrow (increase : Int)
deriving DecidableEq, Repr

structure Modification where
  key : String
  change : Change
deriving DecidableEq, Repr

/-- `groundhogOrderedSet`, the form in which an ordered set is stored. -/
structure OrderedSet where
  limit : Int
  cleared : Nat := 0
  entries : List (Nat × String) := []
deriving DecidableEq, Repr

/-- `groundhogObject`: the reservations on one key. -/
inductive Object where
  | integer (baseInt positiveDelta negativeDelta : Int)
  | bytes (value : String)
  | orderedSet (limit : Int) (cleared : Nat) (setByHash : Finmap fun _ : String => Nat)

abbrev Objects := Finmap fun _ : String => Object

/-- `json.Marshal` and `json.Unmarshal` of an ordered set; decoding fills in a default.  A threshold
of zero is not written, so it is read back into a set whose threshold is zero. -/
structure Codec where
  marshal : OrderedSet → String
  unmarshal : String → OrderedSet → OrderedSet
  unmarshal_marshal : ∀ set out, out.cleared = 0 → unmarshal (marshal set) out = set
  marshal_ne : ∀ set, Text.trimSpace (marshal set) ≠ ""

structure Attempt where
  index : Nat
  tx : SignedTransaction
  reads : List ReadObservation := []
  modifications : List Modification := []
  terminalError : String := ""

/-! ## Checked arithmetic -/

/-- `groundhogAddInt64`: the sum, unless it overflows. -/
def addInt64 (left right : Int) : Option Int :=
  let result := Text.wrap (left + right)
  if (0 < right ∧ result < left) ∨ (right < 0 ∧ left < result) then none else some result

/-- `groundhogWouldUnderflowNonnegative`. -/
def wouldUnderflowNonnegative (base negativeDelta : Int) : Bool :=
  if base < 0 ∨ 0 < negativeDelta then true
  else match addInt64 base negativeDelta with
    | none => true
    | some value => value < 0

/-- `groundhogFinalIntValue`: the value, unless it overflows. -/
def finalIntValue (base negativeDelta positiveDelta : Int) : Option Int :=
  if wouldUnderflowNonnegative base negativeDelta = true ∨ positiveDelta < 0 then none
  else (addInt64 base negativeDelta).bind fun value => addInt64 value positiveDelta

/-- `groundhogParseInt`. -/
def parseIntOr (value : String) (fallback : Int) : Int :=
  if Text.trimSpace value = "" then fallback
  else match Text.parseInt value with
    | .value n => n
    | _ => fallback

/-! ## Normal form of a transaction's modifications -/

def Change.kindName : Change → String
  | .integerAdd _ _ => "nonnegative_int64_set_add"
  | .bytesSet _ => "bytes_set"
  | .orderedSetInsert _ _ => "ordered_set_insert"
  | .orderedSetClear _ => "ordered_set_clear"
  | .orderedSetGrow _ => "ordered_set_increase_limit"

def Change.signRank : Change → Nat
  | .integerAdd _ delta => if delta < 0 then 0 else 1
  | _ => 0

def Change.tag : Change → Nat
  | .orderedSetInsert tag _ => tag
  | _ => 0

def Change.hash : Change → String
  | .orderedSetInsert _ hash => hash
  | _ => ""

def Modification.rank (m : Modification) : String ×ₗ String ×ₗ Nat ×ₗ Nat ×ₗ String :=
  toLex (m.key,
    toLex (m.change.kindName, toLex (m.change.signRank, toLex (m.change.tag, m.change.hash))))

structure Accumulation where
  baseInt : Int := 0
  positive : Int := 0
  negative : Int := 0
  seen : Bool := false
deriving Inhabited

/-- The parts that `normalizeGroundhogModifications` collects. -/
structure Collected where
  ints : GoMap String Accumulation := ∅
  bytesValues : GoMap String String := ∅
  others : List Modification := []

def collectInteger (parts : Collected) (key : String) (baseInt delta : Int) :
    Except String Collected :=
  let accumulation := parts.ints.get key
  if accumulation.seen = true ∧ accumulation.baseInt ≠ baseInt then
    .error ("groundhog_transaction_base_value_mismatch:" ++ key)
  else
    let accumulation := { accumulation with baseInt := baseInt, seen := true }
    let next := if delta < 0 then
        (addInt64 accumulation.negative delta).map fun next => { accumulation with negative :=
          next }
      else
        (addInt64 accumulation.positive delta).map fun next => { accumulation with positive :=
          next }
    match next with
    | none => .error ("groundhog_transaction_integer_overflow:" ++ key)
    | some next => .ok { parts with ints := parts.ints.put key next }

def collect (parts : Collected) (m : Modification) : Except String Collected :=
  match m.change with
  | .integerAdd baseInt delta => collectInteger parts m.key baseInt delta
  | .bytesSet bytes =>
    match parts.bytesValues.find m.key with
    | some existing =>
      if existing ≠ bytes then .error ("groundhog_transaction_bytes_conflict:" ++ m.key)
      else .ok { parts with bytesValues := parts.bytesValues.put m.key bytes }
    | none => .ok { parts with bytesValues := parts.bytesValues.put m.key bytes }
  | _ => .ok { parts with others := parts.others ++ [m] }

/-- The modifications that an accumulation stands for. -/
def Accumulation.modifications (key : String) (a : Accumulation) :
    Except String (List Modification) :=
  if a.baseInt < 0 ∨ wouldUnderflowNonnegative a.baseInt a.negative = true then
    .error ("groundhog_transaction_nonnegative_constraint:" ++ key)
  else if (finalIntValue a.baseInt a.negative a.positive).isNone then
    .error ("groundhog_transaction_integer_overflow:" ++ key)
  else if a.negative = 0 ∧ a.positive = 0 then
    .ok [⟨key, .integerAdd a.baseInt 0⟩]
  else
    .ok ((if a.negative ≠ 0 then [⟨key, .integerAdd a.baseInt a.negative⟩] else []) ++
      if a.positive ≠ 0 then [⟨key, .integerAdd a.baseInt a.positive⟩] else [])

/-- `normalizeGroundhogModifications`. -/
def normalizeModifications (input : List Modification) : Except String (List Modification) := do
  let parts ← input.foldlM collect {}
  let ints ← parts.ints.entries.mapM fun entry => entry.2.modifications entry.1
  let bytes := parts.bytesValues.entries.map fun entry => ⟨entry.1, .bytesSet entry.2⟩
  return (ints.flatten ++ bytes ++ parts.others).insertionSort fun m m' => m.rank ≤ m'.rank

/-! ## Interpretation of a transaction -/

structure GroundhogExecutor where
  defaultInitialBalance : Int := 1000000
  workerCount : Nat := 1
  orderedSetLimit : Int := orderedSetInitialLimit

section Interpret

variable (digests : Digests) (e : GroundhogExecutor) (shardID : String) (base : Snapshot)

def readBase (key : String) : String :=
  if key = "" then "" else base.get (groundhogQualifiedKey shardID key)

def observeBase (reads : List ReadObservation) (key : String) : List ReadObservation :=
  if key = "" ∨ key ∈ reads.map ReadObservation.key then reads
  else reads ++ [⟨key, readBase shardID base key, "groundhog_block_start_snapshot"⟩]

abbrev Interpretation := List ReadObservation × Except String (List Modification)

/-- A transfer moves a balance and enters the transaction into the sender's replay set. -/
def interpretTransfer (item : SignedTransaction) : Interpretation :=
  if item.value ≤ 0 then ([], .error "invalid_value")
  else
    let senderKey := "balance:" ++ item.sender
    let receiverKey := "balance:" ++ item.receiver
    let senderBalance := parseIntOr (readBase shardID base senderKey) e.defaultInitialBalance
    let receiverBalance := parseIntOr (readBase shardID base receiverKey) 0
    let reads := observeBase shardID base (observeBase shardID base [] senderKey) receiverKey
    if senderBalance < item.value then (reads, .error "insufficient_balance")
    else if item.nonce = Text.maxUint64 then (reads, .error "groundhog_nonce_overflow")
    else
      let replayKey := "groundhog:replay:" ++ item.sender
      (observeBase shardID base reads replayKey, .ok
        [⟨senderKey, .integerAdd senderBalance (Text.wrap (-item.value))⟩,
          ⟨receiverKey, .integerAdd receiverBalance item.value⟩,
          ⟨replayKey, .orderedSetInsert (item.nonce + 1) item.txID⟩])

/-- The change that a write access stands for. -/
def interpretWrite (item : SignedTransaction) (access : AccessItem) : Except String Change :=
  if access.updateSemantics = "ordered_set_insert" then
    if item.nonce = Text.maxUint64 then .error "groundhog_nonce_overflow"
    else .ok (.orderedSetInsert (item.nonce + 1) (semanticID item))
  else if access.updateSemantics = "ordered_set_clear" then
    .ok (.orderedSetClear access.delta.toNat)
  else if access.updateSemantics = "ordered_set_increase_limit" then
    if access.delta < 0 then .error "groundhog_invalid_ordered_set_limit_increase"
    else .ok (.orderedSetGrow access.delta)
  else
    .ok (.bytesSet
      (digests.bytesTarget (semanticID item) access.key item.payload access.updateSemantics))

/-- The modifications of one access.  Balances and nonces are mapped by the transfer. -/
def interpretAccess (item : SignedTransaction) (access : AccessItem) :
    Except String (List Modification) :=
  if Text.hasPrefix access.key "balance:" || Text.hasPrefix access.key "nonce:" then .ok []
  else match access.mode with
    | .commutativeDelta =>
      let baseValue := parseIntOr (readBase shardID base access.key) 0
      if baseValue < 0 ∨
        (access.delta < 0 ∧ wouldUnderflowNonnegative baseValue access.delta = true) then
        .error "groundhog_individual_nonnegative_constraint"
      else .ok [⟨access.key, .integerAdd baseValue access.delta⟩]
    | .write | .readWrite =>
      (interpretWrite digests item access).map fun change => [⟨access.key, change⟩]
    | .read | .unknown => .ok []

def interpretAccesses (item : SignedTransaction) (start : Interpretation) : Interpretation :=
  item.accessList.foldl (fun state access =>
    match state.2 with
    | .error err => (state.1, .error err)
    | .ok modifications =>
      if access.key = "" then (state.1, .ok modifications)
      else (observeBase shardID base state.1 access.key,
        (interpretAccess digests shardID base item access).map (modifications ++ ·))) start

def interpretTransaction (index : Nat) (item : SignedTransaction) : Attempt :=
  if isCrossShardTargetCommit item shardID || Text.hasPrefix item.payload "v5_cross:" then
    { index := index, tx := item, terminalError := "groundhog_cross_shard_unsupported" }
  else
    let start : Interpretation :=
      if isPureCommutativeDelta item.accessList || isDirectAccessTransaction item then ([], .ok [])
      else interpretTransfer e shardID base item
    let (reads, result) := interpretAccesses digests shardID base item start
    match result.bind normalizeModifications with
    | .error err => { index := index, tx := item, reads := reads, terminalError := err }
    | .ok modifications =>
      { index := index
        tx := item
        reads := reads.insertionSort fun r r' => r.key ≤ r'.key
        modifications := modifications }

end Interpret

end ChainLab.Execution.Groundhog
