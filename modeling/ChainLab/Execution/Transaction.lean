import ChainLab.Block.Model
import ChainLab.Data.Program
import ChainLab.Data.Text

/-!
# Transaction semantics

`executeTxWithoutStateRoot` of the serial executor, which all executors share.  It reaches the state
through the `get` and `set` of an overlay only, so it is a program over logical keys, and every
executor runs it in its own overlay.  SHA-256 digests are parameters.
-/

namespace ChainLab.Execution

open Prog (uses_read uses_write uses_bind uses_forM)

/-! ## Data -/

/-- The digests that end up in state values: `stableDigest` of the records that
`directAccessValue` and Groundhog's byte writes describe. -/
structure Digests where
  directAccess : (logicalTxID key semantics previous : String) → String
  bytesTarget : (logicalTxID key payload semantics : String) → String

/-- The texts `nonce_mismatch_expected_N_got_M`, `invalid_value` and `insufficient_balance` of a
receipt's error. -/
inductive TxError where
  | nonceMismatch (expected got : Nat)
  | invalidValue
  | insufficientBalance
deriving DecidableEq, Repr

structure Receipt where
  txID : String
  blockHash : String
  height : Nat
  success : Bool := false
  error : Option TxError := none
  executionCost : Int := 1
  stateKeys : List String
  stateRootAfterTx : String := ""
deriving DecidableEq, Repr

/-- The receipt of a transaction, without a state root. -/
def Receipt.of (b : Block) (item : SignedTransaction) (failure : Option TxError) : Receipt where
  txID := item.txID
  blockHash := b.blockHash
  height := b.height
  success := failure.isNone
  error := failure
  stateKeys := item.stateKeys

abbrev TxProg := Prog String String

/-- `tx.SemanticID`. -/
def semanticID (item : SignedTransaction) : String :=
  if Text.trimSpace item.logicalTxID ≠ "" then Text.trimSpace item.logicalTxID
  else if Text.trimSpace item.traceSourceID ≠ "" then Text.trimSpace item.traceSourceID
  else item.txID

/-! ## Kinds of transactions -/

def isPureCommutativeDelta (accesses : List AccessItem) : Bool :=
  !accesses.isEmpty && accesses.all fun access =>
    access.mode = .read || access.mode = .commutativeDelta

def crossShardTargetFromPayload (payload : String) : String :=
  if Text.hasPrefix payload "v5_cross:" then
    Text.trimSpace
      (String.ofList ((Text.trimPrefix payload "v5_cross:").toList.takeWhile (· ≠ ':')))
  else ""

def isCrossShardTargetCommit (item : SignedTransaction) (shardID : String) : Bool :=
  crossShardTargetFromPayload item.payload ≠ "" && crossShardTargetFromPayload item.payload =
    shardID

def isDirectAccessTransaction (item : SignedTransaction) : Bool :=
  item.accessListSchema ≠ "" && item.accessListSchema ≠ "dcl_sale_access_template_v1" &&
    item.accessListSource ≠ "legacy_state_keys"

/-! ## Overlay methods -/

def balance (account : String) : TxProg Int := do
  let value ← Prog.read ("balance:" ++ account)
  return (Text.parseInt value).number 0

def setBalance (account : String) (amount : Int) : TxProg Unit :=
  Prog.write ("balance:" ++ account) (Text.formatInt amount)

def nonce (account : String) : TxProg Nat := do
  let value ← Prog.read ("nonce:" ++ account)
  return (Text.parseUint value).number 0

def setNonce (account : String) (value : Nat) : TxProg Unit :=
  Prog.write ("nonce:" ++ account) (Text.formatUint value)

def ensureAccount (account : String) (amount : Int) : TxProg Unit := do
  let value ← Prog.read ("balance:" ++ account)
  (if value = "" then setBalance account amount else return ())
  let value ← Prog.read ("nonce:" ++ account)
  (if value = "" then setNonce account 0 else return ())

def applyCommutativeDeltas (accesses : List AccessItem) : TxProg Unit :=
  accesses.forM fun access =>
    if access.mode ≠ .commutativeDelta ∨ access.key = "" then return ()
    else do
      let current ← Prog.read access.key
      Prog.write access.key
        (Text.formatInt (Text.wrap ((Text.parseInt current).number 0 + access.delta)))

/-! ## Execution -/

section

variable (digests : Digests) (defaultInitialBalance : Int)

/-- Metadata reads that a transaction declares are made first. -/
def applyDeclaredSemanticReads (accesses : List AccessItem) : TxProg Unit :=
  accesses.forM fun access =>
    if access.mode = .read ∧ access.key ≠ "" ∧ access.updateSemantics = "category_metadata" then do
      let _ ← Prog.read access.key
    else return ()

def directAccessValue (item : SignedTransaction) (access : AccessItem) (previous : String) :
    String :=
  digests.directAccess (semanticID item) access.key access.updateSemantics previous

def applyDirectAccessTransaction (item : SignedTransaction) : TxProg Unit :=
  item.accessList.forM fun access =>
    if access.key = "" then return ()
    else match access.mode with
      | .read => do
        let _ ← Prog.read access.key
      | .commutativeDelta => applyCommutativeDeltas [access]
      | .readWrite => do
        let current ← Prog.read access.key
        Prog.write access.key (directAccessValue digests item access current)
      | .write => Prog.write access.key (directAccessValue digests item access "")
      | .unknown => return ()

/-- A transfer: accounts come into being, the nonce must match and the sender must have the value.
A transaction that fails keeps the accounts it created. -/
def executeTransfer (item : SignedTransaction) : TxProg (Option TxError) := do
  ensureAccount item.sender defaultInitialBalance
  ensureAccount item.receiver 0
  let expectedNonce ← nonce item.sender
  if item.nonce ≠ expectedNonce then
    return some (.nonceMismatch expectedNonce item.nonce)
  else if item.value ≤ 0 then
    return some .invalidValue
  else
    let senderBalance ← balance item.sender
    if senderBalance < item.value then
      return some .insufficientBalance
    else
      setBalance item.sender (Text.wrap (senderBalance - item.value))
      let receiverBalance ← balance item.receiver
      setBalance item.receiver (Text.wrap (receiverBalance + item.value))
      setNonce item.sender ((item.nonce + 1) % 2 ^ 64)
      applyCommutativeDeltas item.accessList
      return none

/-- `executeTxWithoutStateRoot` up to the receipt, which `Receipt.of` makes of the failure. -/
def executeTx (shardID : String) (item : SignedTransaction) : TxProg (Option TxError) := do
  applyDeclaredSemanticReads item.accessList
  if isPureCommutativeDelta item.accessList then
    applyCommutativeDeltas item.accessList
    return none
  else if isCrossShardTargetCommit item shardID then
    Prog.write ("relay_commit:" ++ item.txID) "1"
    return none
  else if isDirectAccessTransaction item then
    applyDirectAccessTransaction digests item
    return none
  else
    executeTransfer defaultInitialBalance item

end

/-! ## No transaction touches the empty key -/

section

abbrev Proper {α : Type} (p : TxProg α) : Prop := p.Uses (· ≠ "")

lemma append_ne_empty {s t : String} (h : s ≠ "") : s ++ t ≠ "" := by
  simp [h]

lemma proper_read_account {start account : String} (h : start ≠ "") :
    Proper (Prog.read (start ++ account)) :=
  uses_read.2 (append_ne_empty h)

variable (account : String)

lemma proper_setBalance (amount : Int) : Proper (setBalance account amount) :=
  uses_write.2 (append_ne_empty (by decide))

lemma proper_setNonce (value : Nat) : Proper (setNonce account value) :=
  uses_write.2 (append_ne_empty (by decide))

lemma proper_balance : Proper (balance account) :=
  uses_bind (proper_read_account (by decide)) fun _ => Prog.uses_pure _

lemma proper_nonce : Proper (nonce account) :=
  uses_bind (proper_read_account (by decide)) fun _ => Prog.uses_pure _

lemma proper_ite {α : Type} {c : Prop} [Decidable c] {p q : TxProg α} (hp : Proper p)
    (hq : Proper q) : Proper (if c then p else q) := by
  split
  · exact hp
  · exact hq

lemma proper_ensureAccount (amount : Int) : Proper (ensureAccount account amount) := by
  refine uses_bind (proper_read_account (by decide)) fun value => ?_
  refine uses_bind (proper_ite (proper_setBalance account amount) trivial) fun _ => ?_
  refine uses_bind (proper_read_account (by decide)) fun value => ?_
  exact proper_ite (proper_setNonce account 0) trivial

lemma proper_applyCommutativeDeltas (accesses : List AccessItem) :
    Proper (applyCommutativeDeltas accesses) := by
  refine uses_forM fun access _ => ?_
  by_cases h : access.mode ≠ .commutativeDelta ∨ access.key = ""
  · rw [if_pos h]
    trivial
  · rw [if_neg h]
    have hkey : access.key ≠ "" := fun he => h (Or.inr he)
    exact uses_bind (uses_read.2 hkey) fun _ => uses_write.2 hkey

lemma proper_applyDeclaredSemanticReads (accesses : List AccessItem) :
    Proper (applyDeclaredSemanticReads accesses) := by
  refine uses_forM fun access _ => ?_
  split
  · next h => exact uses_bind (uses_read.2 h.2.1) fun _ => trivial
  · trivial

lemma proper_applyDirectAccessTransaction (digests : Digests) (item : SignedTransaction) :
    Proper (applyDirectAccessTransaction digests item) := by
  refine uses_forM fun access _ => ?_
  by_cases hkey : access.key = ""
  · rw [if_pos hkey]
    trivial
  rw [if_neg hkey]
  cases access.mode with
  | read => exact uses_bind (uses_read.2 hkey) fun _ => trivial
  | write => exact uses_write.2 hkey
  | readWrite => exact uses_bind (uses_read.2 hkey) fun _ => uses_write.2 hkey
  | commutativeDelta => exact proper_applyCommutativeDeltas [access]
  | unknown => trivial

lemma proper_executeTransfer (defaultInitialBalance : Int) (item : SignedTransaction) :
    Proper (executeTransfer defaultInitialBalance item) := by
  refine uses_bind (proper_ensureAccount _ _) fun _ => ?_
  refine uses_bind (proper_ensureAccount _ _) fun _ => ?_
  refine uses_bind (proper_nonce _) fun expectedNonce => ?_
  refine proper_ite trivial (proper_ite trivial ?_)
  refine uses_bind (proper_balance _) fun senderBalance => ?_
  refine proper_ite trivial ?_
  refine uses_bind (proper_setBalance _ _) fun _ => ?_
  refine uses_bind (proper_balance _) fun receiverBalance => ?_
  refine uses_bind (proper_setBalance _ _) fun _ => ?_
  refine uses_bind (proper_setNonce _ _) fun _ => ?_
  exact uses_bind (proper_applyCommutativeDeltas _) fun _ => trivial

lemma proper_executeTx (digests : Digests) (defaultInitialBalance : Int) (shardID : String)
    (item : SignedTransaction) : Proper (executeTx digests defaultInitialBalance shardID item) := by
  refine uses_bind (proper_applyDeclaredSemanticReads _) fun _ => ?_
  refine proper_ite ?_ (proper_ite ?_ (proper_ite ?_ (proper_executeTransfer _ _)))
  · exact uses_bind (proper_applyCommutativeDeltas _) fun _ => trivial
  · exact uses_bind (uses_write.2 (append_ne_empty (by decide))) fun _ => trivial
  · exact uses_bind (proper_applyDirectAccessTransaction _ _) fun _ => trivial

end

end ChainLab.Execution
