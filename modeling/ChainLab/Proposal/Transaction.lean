import ChainLab.Block.Model
import ChainLab.Data.Json
import ChainLab.Data.Text

/-!
# Signed transactions

`tx.SignedTransaction` with all its fields, and `tx.Verify`.  The identifier of a transaction is the
digest of the canonical JSON of its core, which is everything but the identifier and the signature.
SHA-256, the text of JSON values, base64 and Ed25519 are parameters.
-/

namespace ChainLab.Proposal

open Json (field omitZero omitNil pointer)
open Json

/-! ## Primitives -/

/-- The functions of the standard library that transactions and blocks rest on.  `sha256` is the
hexadecimal digest of a text, `json` the text of a JSON value; bytes are lists of numbers. -/
structure Primitives where
  sha256 : String → String
  json : Json → String
  base64 : String → Option (List Nat)
  address : (publicKey : List Nat) → String
  ed25519 : (publicKey : List Nat) → (message : String) → (signature : List Nat) → Bool

namespace Primitives

structure CollisionFree (p : Primitives) : Prop where
  sha256_inj : Function.Injective p.sha256
  json_inj : Function.Injective p.json

variable (p : Primitives)

def digest (value : Json) : String :=
  p.sha256 (p.json value)

lemma CollisionFree.digest_inj {p : Primitives} (h : p.CollisionFree) :
    Function.Injective p.digest :=
  fun _ _ heq => h.json_inj (h.sha256_inj heq)

/-- `StdEncoding.DecodeString` passes over line breaks. -/
def decodeString (s : String) : Option (List Nat) :=
  p.base64 (String.ofList (s.toList.filter fun c => c ≠ '\r' ∧ c ≠ '\n'))

end Primitives

/-! ## Data -/

structure AccessItem where
  key : String
  mode : String
  updateSemantics : String := ""
  delta : Int := 0
deriving DecidableEq, Repr

structure StateVersionDependency where
  key : String
  requiredVersion : Nat := 0
  requiredExecutionRound : Int := 0
  producedVersion : Nat := 0
  livenessClass : String := ""
  livenessDigest : String := ""
  requiredLivenessClass : String := ""
  requiredLivenessDigest : String := ""
  batchFinal : Bool := false
  valueSuccessorCount : Int := 0
  localValueSuccessorCount : Int := 0
  remoteValueSuccessorCount : Int := 0
  localOrderingSuccessorCount : Int := 0
  remoteOrderingSuccessorCount : Int := 0
deriving DecidableEq, Repr

structure ExecutionRoutingMetadata where
  senderID : String := ""
  receiverID : String := ""
  routingEpoch : Nat := 0
  routingOrdinal : Nat := 0
  executionShard : String := ""
  routingReason : String := ""
  routePlanDigest : String := ""
  routeBatchSequence : Nat := 0
  routeBatchTransactionCount : Int := 0
  routeBatchShardTransactionCount : Int := 0
  consensusExecutionPredecessorOrdinals : List Nat := []
  consensusOrderingPredecessorOrdinals : List Nat := []
  consensusExecutionDepth : Int := 0
  consensusExecutionRound : Int := 0
  consensusWindowSequence : Nat := 0
  consensusWindowStartBatchSequence : Nat := 0
  consensusWindowEndBatchSequence : Nat := 0
  consensusWindowRouteBatchCount : Int := 0
  consensusWindowTransactionCount : Int := 0
  consensusWindowShardTransactionCount : Int := 0
  consensusWindowCriticalPath : Int := 0
  routeEntryDigest : String := ""
  predictedRemoteReads : Int := 0
  predictedRemoteWrites : Int := 0
  stateVersions : List StateVersionDependency := []
  controlPolicy : String := ""
  logicalDomains : List String := []
  isLocal : Bool := false
  bridge : Bool := false
  frontierDigest : String := ""
deriving DecidableEq, Repr

/-- The fields that the identifier of a transaction digests. -/
structure CoreFields where
  logicalTxID : String := ""
  sender : String := ""
  receiver : String := ""
  nonce : Nat := 0
  value : Int := 0
  stateKeys : List String := []
  accessList : List AccessItem := []
  accessListDigest : String := ""
  accessListSchema : String := ""
  accessListSource : String := ""
  schedulingAccessList : List AccessItem := []
  schedulingAccessDigest : String := ""
  schedulingAccessSchema : String := ""
  schedulingAccessSource : String := ""
  payload : String := ""
  timestamp : Int := 0
  publicKey : String := ""
  sourceKind : String := ""
  traceSourceID : String := ""
  executionRouting : Option ExecutionRoutingMetadata := none
deriving DecidableEq, Repr

structure UnsignedTransaction extends CoreFields where
  txID : String := ""
deriving DecidableEq, Repr

structure Transaction extends UnsignedTransaction where
  signature : String := ""
deriving DecidableEq, Repr

/-! ## JSON -/

def AccessItem.fields (a : AccessItem) : List Json.Field :=
  [field "key" .str a.key, field "mode" .str a.mode,
    field "update_semantics" .str a.updateSemantics, omitZero "delta" 0 .num a.delta]

def AccessItem.json (a : AccessItem) : Json :=
  .object a.fields

def StateVersionDependency.fields (d : StateVersionDependency) : List Json.Field :=
  [field "key" .str d.key, field "required_version" .nat d.requiredVersion,
    omitZero "required_execution_round" 0 .num d.requiredExecutionRound,
    omitZero "produced_version" 0 .nat d.producedVersion,
    omitZero "liveness_class" "" .str d.livenessClass,
    omitZero "liveness_digest" "" .str d.livenessDigest,
    omitZero "required_liveness_class" "" .str d.requiredLivenessClass,
    omitZero "required_liveness_digest" "" .str d.requiredLivenessDigest,
    omitZero "batch_final" false .bool d.batchFinal,
    omitZero "value_successor_count" 0 .num d.valueSuccessorCount,
    omitZero "local_value_successor_count" 0 .num d.localValueSuccessorCount,
    omitZero "remote_value_successor_count" 0 .num d.remoteValueSuccessorCount,
    omitZero "local_ordering_successor_count" 0 .num d.localOrderingSuccessorCount,
    omitZero "remote_ordering_successor_count" 0 .num d.remoteOrderingSuccessorCount]

def StateVersionDependency.json (d : StateVersionDependency) : Json :=
  .object d.fields

/-- The fields from the batch sequence to the critical path, which the metadata and the payload of
its digest marshal alike. -/
def ExecutionRoutingMetadata.batchFields (m : ExecutionRoutingMetadata) : List Json.Field :=
  [omitZero "route_batch_sequence" 0 .nat m.routeBatchSequence,
    omitZero "route_batch_transaction_count" 0 .num m.routeBatchTransactionCount,
    omitZero "route_batch_shard_transaction_count" 0 .num m.routeBatchShardTransactionCount,
    omitNil "consensus_execution_predecessor_ordinals" .nat m.consensusExecutionPredecessorOrdinals,
    omitNil "consensus_ordering_predecessor_ordinals" .nat m.consensusOrderingPredecessorOrdinals,
    omitZero "consensus_execution_depth" 0 .num m.consensusExecutionDepth,
    omitZero "consensus_execution_round" 0 .num m.consensusExecutionRound,
    omitZero "consensus_window_sequence" 0 .nat m.consensusWindowSequence,
    omitZero "consensus_window_start_batch_sequence" 0 .nat m.consensusWindowStartBatchSequence,
    omitZero "consensus_window_end_batch_sequence" 0 .nat m.consensusWindowEndBatchSequence,
    omitZero "consensus_window_route_batch_count" 0 .num m.consensusWindowRouteBatchCount,
    omitZero "consensus_window_transaction_count" 0 .num m.consensusWindowTransactionCount,
    omitZero "consensus_window_shard_transaction_count" 0 .num
      m.consensusWindowShardTransactionCount,
    omitZero "consensus_window_critical_path" 0 .num m.consensusWindowCriticalPath]

/-- The fields from the predictions to the frontier digest. -/
def ExecutionRoutingMetadata.frontierFields (m : ExecutionRoutingMetadata) : List Json.Field :=
  [field "predicted_remote_reads" .num m.predictedRemoteReads,
    field "predicted_remote_writes" .num m.predictedRemoteWrites,
    omitNil "state_versions" StateVersionDependency.json m.stateVersions,
    omitZero "control_policy" "" .str m.controlPolicy,
    omitNil "logical_domains" .str m.logicalDomains,
    omitZero "local" false .bool m.isLocal, omitZero "bridge" false .bool m.bridge,
    omitZero "frontier_digest" "" .str m.frontierDigest]

def ExecutionRoutingMetadata.fields (m : ExecutionRoutingMetadata) : List Json.Field :=
  [field "sender_id" .str m.senderID, field "receiver_id" .str m.receiverID,
    field "routing_epoch" .nat m.routingEpoch, field "routing_ordinal" .nat m.routingOrdinal,
    field "execution_shard" .str m.executionShard, field "routing_reason" .str m.routingReason,
    field "route_plan_digest" .str m.routePlanDigest] ++ m.batchFields ++
    [field "route_entry_digest" .str m.routeEntryDigest] ++ m.frontierFields

def ExecutionRoutingMetadata.json (m : ExecutionRoutingMetadata) : Json :=
  .object m.fields

/-- The fields of the core up to the payload. -/
def CoreFields.accessFields (c : CoreFields) : List Json.Field :=
  [omitZero "logical_tx_id" "" .str c.logicalTxID, field "sender" .str c.sender,
    field "receiver" .str c.receiver, field "nonce" .nat c.nonce, field "value" .num c.value,
    field "state_keys" (.list .str) c.stateKeys,
    omitNil "access_list" AccessItem.json c.accessList,
    omitZero "access_list_digest" "" .str c.accessListDigest,
    omitZero "access_list_schema" "" .str c.accessListSchema,
    omitZero "access_list_source" "" .str c.accessListSource,
    omitNil "scheduling_access_list" AccessItem.json c.schedulingAccessList,
    omitZero "scheduling_access_digest" "" .str c.schedulingAccessDigest,
    omitZero "scheduling_access_schema" "" .str c.schedulingAccessSchema,
    omitZero "scheduling_access_source" "" .str c.schedulingAccessSource,
    field "payload" .str c.payload, field "timestamp" .num c.timestamp]

/-- The fields of the core from the public key on. -/
def CoreFields.sourceFields (c : CoreFields) : List Json.Field :=
  [field "public_key" .str c.publicKey, omitZero "source_kind" "" .str c.sourceKind,
    omitZero "trace_source_id" "" .str c.traceSourceID,
    pointer "execution_routing" ExecutionRoutingMetadata.json c.executionRouting]

def CoreFields.fields (c : CoreFields) : List Json.Field :=
  c.accessFields ++ c.sourceFields

def CoreFields.json (c : CoreFields) : Json :=
  .object c.fields

def Transaction.fields (t : Transaction) : List Json.Field :=
  [field "tx_id" .str t.txID] ++ t.accessFields ++ [field "signature" .str t.signature] ++
    t.sourceFields

def Transaction.json (t : Transaction) : Json :=
  .object t.fields

/-! ## Verification -/

section

variable (p : Primitives)

def canonicalBytes (t : CoreFields) : String :=
  p.json t.json

def computeID (t : CoreFields) : String :=
  p.sha256 (canonicalBytes p t)

def computeExecutionRoutingDigest (t : CoreFields) (m : ExecutionRoutingMetadata) : String :=
  p.digest <| .object ([field "sender_id" .str t.sender, field "receiver_id" .str t.receiver,
      field "nonce" .nat t.nonce, field "state_keys" (.list .str) t.stateKeys,
      field "access_list_digest" .str t.accessListDigest, field "payload" .str t.payload,
      field "routing_epoch" .nat m.routingEpoch, field "routing_ordinal" .nat m.routingOrdinal,
      field "execution_shard" .str m.executionShard,
      field "routing_reason" .str m.routingReason,
      field "route_plan_digest" .str m.routePlanDigest] ++ m.batchFields ++ m.frontierFields ++
      [omitNil "access_list" AccessItem.json t.accessList])

def blank (s : String) : Bool :=
  Text.trimSpace s = ""

/-- The loop over one list of predecessor ordinals; `none` is an error, otherwise the ordinals that
have been seen. -/
def checkPredecessors (ordinal last : Nat) (seen : List Nat) : List Nat → Option (List Nat)
  | [] => some seen
  | predecessor :: rest =>
    if predecessor = 0 ∨ ordinal ≤ predecessor ∨ (last ≠ 0 ∧ predecessor ≤ last) ∨
        predecessor ∈ seen then none
    else checkPredecessors ordinal predecessor (predecessor :: seen) rest

def checkStateVersions (m : ExecutionRoutingMetadata) (seen : List String) (lastKey : String) :
    List StateVersionDependency → Option String
  | [] => none
  | d :: rest =>
    if blank d.key ∨ d.key ∈ seen then some "invalid execution routing state version dependency"
    else if lastKey ≠ "" ∧ d.key < lastKey then
      some "execution routing state versions must be sorted by key"
    else if d.producedVersion ≠ 0 ∧ d.producedVersion ≠ m.routingOrdinal then
      some "invalid execution routing produced state version"
    else if d.producedVersion ≠ 0 ∧ d.producedVersion ≤ d.requiredVersion then
      some "invalid execution routing state version ordering"
    else if d.requiredExecutionRound < 0 ∨
      (d.requiredVersion = 0 ∧ d.requiredExecutionRound ≠ 0) then
      some "invalid execution routing required execution round"
    else if 0 < d.requiredExecutionRound ∧ 0 < m.consensusExecutionRound ∧
        m.consensusExecutionRound ≤ d.requiredExecutionRound then
      some "invalid execution routing execution round ordering"
    else checkStateVersions m (d.key :: seen) d.key rest

/-- The loop over the logical domains: sorted, unique and not blank. -/
def sortedDomains (lastDomain : String) : List String → Bool
  | [] => true
  | domain :: rest =>
    if blank domain ∨ (lastDomain ≠ "" ∧ domain ≤ lastDomain) then false
    else sortedDomains domain rest

def checkControlPolicy (m : ExecutionRoutingMetadata) : Option String :=
  if m.controlPolicy = "" then none
  else if m.controlPolicy = "logical_domain_frontier_v1" then
    if m.logicalDomains.isEmpty ∨ blank m.frontierDigest then
      some "invalid execution routing logical-domain frontier"
    else if ¬ sortedDomains "" m.logicalDomains then
      some "execution routing logical domains must be sorted unique non-empty"
    else if m.isLocal = m.bridge then
      some "execution routing must be exactly one of local or bridge"
    else if m.isLocal ≠ decide (m.logicalDomains.length = 1) ∨
        m.bridge ≠ decide (1 < m.logicalDomains.length) then
      some "execution routing local/bridge classification mismatch"
    else none
  else if m.controlPolicy = "declared_access_frontier_v2" then
    if blank m.frontierDigest then some "invalid execution routing declared-access frontier"
    else if m.logicalDomains ≠ [] ∨ m.isLocal ∨ m.bridge then
      some "declared-access frontier must not carry logical-domain admission state"
    else none
  else some "invalid execution routing control_policy"

/-- The tests of the batch and window metadata. -/
def checkBatchMetadata (m : ExecutionRoutingMetadata) : Option String :=
  if (m.routeBatchSequence ≠ 0 ∨ m.routeBatchTransactionCount ≠ 0 ∨
    m.routeBatchShardTransactionCount ≠ 0) ∧
      (m.routeBatchSequence = 0 ∨ m.routeBatchTransactionCount ≤ 0 ∨
        m.routeBatchShardTransactionCount ≤ 0 ∨
        m.routeBatchTransactionCount < m.routeBatchShardTransactionCount) then
    some "invalid execution routing route batch metadata"
  else if m.consensusExecutionDepth < 0 then
    some "invalid execution routing consensus execution depth"
  else if m.consensusExecutionRound < 0 then
    some "invalid execution routing consensus execution round"
  else if (m.consensusWindowSequence ≠ 0 ∨ m.consensusWindowStartBatchSequence ≠ 0 ∨
        m.consensusWindowEndBatchSequence ≠ 0 ∨ m.consensusWindowRouteBatchCount ≠ 0 ∨
        m.consensusWindowTransactionCount ≠ 0 ∨ m.consensusWindowShardTransactionCount ≠ 0 ∨
        m.consensusWindowCriticalPath ≠ 0) ∧
      (m.consensusWindowSequence = 0 ∨ m.consensusWindowStartBatchSequence = 0 ∨
        m.consensusWindowEndBatchSequence < m.consensusWindowStartBatchSequence ∨
        -- `int(end - start + 1)`: the difference is not negative here.
        m.consensusWindowRouteBatchCount ≠ Text.wrap
          (m.consensusWindowEndBatchSequence - m.consensusWindowStartBatchSequence + 1) ∨
        m.consensusWindowTransactionCount ≤ 0 ∨ m.consensusWindowShardTransactionCount ≤ 0 ∨
        m.consensusWindowTransactionCount < m.consensusWindowShardTransactionCount ∨
        m.consensusWindowCriticalPath ≤ 0 ∨
        m.routeBatchSequence < m.consensusWindowStartBatchSequence ∨
        m.consensusWindowEndBatchSequence < m.routeBatchSequence) then
    some "invalid execution routing consensus window metadata"
  else none

/-- `ValidateExecutionRouting`: the text of the first error. -/
def validateExecutionRouting (t : CoreFields) : Option String :=
  match t.executionRouting with
  | none => none
  | some m =>
    if blank m.senderID ∨ m.senderID ≠ t.sender then
      some "invalid execution routing sender_id"
    else if blank m.receiverID ∨ m.receiverID ≠ t.receiver then
      some "invalid execution routing receiver_id"
    else if m.routingOrdinal = 0 then some "invalid execution routing routing_ordinal"
    else if blank m.executionShard then some "invalid execution routing execution_shard"
    else if blank m.routingReason then some "invalid execution routing routing_reason"
    else if blank m.routePlanDigest then some "invalid execution routing route_plan_digest"
    else
      (checkBatchMetadata m).or <|
      -- Both lists of predecessors share what has been seen.
      match (checkPredecessors m.routingOrdinal 0 []
          m.consensusExecutionPredecessorOrdinals).bind fun seen =>
          checkPredecessors m.routingOrdinal 0 seen m.consensusOrderingPredecessorOrdinals with
      | none => some "invalid execution routing consensus predecessor ordinals"
      | some seen =>
        if 0 < seen.length ∧ m.consensusExecutionDepth ≤ 0 then
          some "invalid execution routing consensus execution depth"
        else if m.predictedRemoteReads < 0 ∨ m.predictedRemoteWrites < 0 then
          some "invalid execution routing remote-access prediction"
        else
          ((checkStateVersions m [] "" m.stateVersions).or (checkControlPolicy m)).or <|
            if m.routeEntryDigest = "" ∨
              m.routeEntryDigest ≠ computeExecutionRoutingDigest p t m then
              some "invalid execution routing route_entry_digest"
            else none

/-- `ValidateBasic`. -/
def validateBasic (t : Transaction) : Option String :=
  if blank t.sender then some "empty_sender"
  else if blank t.receiver then some "empty_receiver"
  else if t.value ≤ 0 then some "invalid_value"
  else if t.stateKeys.isEmpty then some "malformed_tx"
  else if t.stateKeys.any blank then some "malformed_tx"
  else if t.accessList.any fun a => blank a.key ||
      decide (a.mode ∉ ["read", "write", "read_write", "commutative_delta"]) then
    some "malformed_tx"
  else if t.schedulingAccessList.any fun a => blank a.key || blank a.updateSemantics ||
      decide (a.mode ∉ ["read", "write", "read_write", "commutative_delta", "unknown"]) then
    some "malformed_tx"
  else
    match validateExecutionRouting p t.toCoreFields with
    | some err => some err
    | none =>
      if blank t.publicKey ∨ blank t.signature then some "invalid_signature"
      else if t.txID ≠ computeID p t.toCoreFields then some "invalid_tx_id"
      else none

def addressFromPublicKeyText (publicKeyText : String) : Option String :=
  match p.decodeString (Text.trimSpace publicKeyText) with
  | some publicKey => if publicKey.length = 32 then some (p.address publicKey) else none
  | none => none

/-- `strings.EqualFold` on ASCII texts, which addresses are. -/
def equalFold (s t : String) : Bool :=
  s.toList.map Char.toLower = t.toList.map Char.toLower

def isBoundSender (sender publicKeyText : String) : Bool :=
  match addressFromPublicKeyText p publicKeyText with
  | some address => equalFold (Text.trimSpace sender) address
  | none => false

/-- `tx.Verify`: the text of the first error. -/
def verify (t : Transaction) : Option String :=
  match validateBasic p t with
  | some err => some err
  | none =>
    if ¬ isBoundSender p t.sender t.publicKey then some "sender_public_key_mismatch"
    else
      match p.decodeString t.publicKey, p.decodeString t.signature with
      | some publicKey, some signature =>
        if publicKey.length ≠ 32 ∨ signature.length ≠ 64 then some "invalid_signature"
        else if p.ed25519 publicKey (canonicalBytes p t.toCoreFields) signature then none
        else some "invalid_signature"
      | _, _ => some "invalid_signature"

end

/-! ## What executors read -/

def AccessMode.ofText (mode : String) : AccessMode :=
  if mode = "read" then .read
  else if mode = "write" then .write
  else if mode = "read_write" then .readWrite
  else if mode = "commutative_delta" then .commutativeDelta
  else .unknown

def AccessItem.executed (a : AccessItem) : ChainLab.AccessItem where
  key := a.key
  mode := AccessMode.ofText a.mode
  updateSemantics := a.updateSemantics
  delta := a.delta

/-- The part of a transaction that execution reads. -/
def UnsignedTransaction.executed (t : UnsignedTransaction) : SignedTransaction where
  txID := t.txID
  logicalTxID := t.logicalTxID
  traceSourceID := t.traceSourceID
  sender := t.sender
  receiver := t.receiver
  nonce := t.nonce
  value := t.value
  stateKeys := t.stateKeys
  accessList := t.accessList.map AccessItem.executed
  accessListSchema := t.accessListSchema
  accessListSource := t.accessListSource
  payload := t.payload

/-! ## Identifiers -/

lemma AccessItem.json_injective : Function.Injective AccessItem.json := by
  intro a b h
  have hfld := object_fields AccessItem.fields ⟨"", "", "", 0⟩ (fun _ => rfl) (by decide) h
  simp only [AccessItem.fields, List.cons.injEq, field_str, omitZero_num, and_true] at hfld
  cases a
  cases b
  simp_all

lemma StateVersionDependency.json_injective : Function.Injective StateVersionDependency.json := by
  intro a b h
  have hfld :=
    object_fields StateVersionDependency.fields { key := "" } (fun _ => rfl) (by decide) h
  simp only [StateVersionDependency.fields, List.cons.injEq, field_str, field_nat,
    omitZero_num, omitZero_nat, omitZero_str, omitZero_bool, and_true]
    at hfld
  cases a
  cases b
  simp_all

lemma ExecutionRoutingMetadata.json_injective :
    Function.Injective ExecutionRoutingMetadata.json := by
  intro a b h
  have hfld := object_fields ExecutionRoutingMetadata.fields {} (fun _ => rfl) (by decide) h
  simp only [ExecutionRoutingMetadata.fields, ExecutionRoutingMetadata.batchFields,
    ExecutionRoutingMetadata.frontierFields, List.cons_append, List.nil_append, List.cons.injEq,
    field_str, field_nat, field_num, omitZero_num, omitZero_nat,
    omitZero_str, omitZero_bool, omitNil_eq nat_injective,
    omitNil_eq str_injective,
    omitNil_eq StateVersionDependency.json_injective, and_true] at hfld
  cases a
  cases b
  simp_all

lemma CoreFields.accessFields_eq {a b : CoreFields} (h : a.accessFields = b.accessFields)
    (h' : a.sourceFields = b.sourceFields) : a = b := by
  simp only [CoreFields.accessFields, CoreFields.sourceFields, List.cons.injEq, field_str,
    field_nat, field_num, omitZero_str,
    field_eq (list_injective str_injective),
    omitNil_eq AccessItem.json_injective,
    pointer_eq ExecutionRoutingMetadata.json_injective, and_true] at h h'
  cases a
  cases b
  simp_all

lemma CoreFields.json_injective : Function.Injective CoreFields.json := by
  intro a b h
  have hfld := object_fields CoreFields.fields {} (fun _ => rfl) (by decide) h
  obtain ⟨hacc, hsource⟩ := List.append_inj hfld rfl
  exact CoreFields.accessFields_eq hacc hsource

lemma Transaction.json_injective : Function.Injective Transaction.json := by
  intro a b h
  have hfld := object_fields Transaction.fields {} (fun _ => rfl) (by decide) h
  obtain ⟨hinit, hsource⟩ := List.append_inj hfld rfl
  obtain ⟨hinit, hsig⟩ := List.append_inj hinit rfl
  obtain ⟨hid, hacc⟩ := List.append_inj hinit rfl
  have hcore : a.toCoreFields = b.toCoreFields := CoreFields.accessFields_eq hacc hsource
  simp only [List.cons.injEq, field_str, and_true] at hid hsig
  obtain ⟨⟨core, id⟩, signature⟩ := a
  simp only at hcore hid hsig
  rw [hcore, hid, hsig]

variable {p : Primitives} {t : Transaction}

lemma computeID_injective (h : p.CollisionFree) : Function.Injective (computeID p) :=
  fun _ _ heq => CoreFields.json_injective (h.digest_inj heq)

lemma verify_iff : verify p t = none ↔
      validateBasic p t = none ∧ isBoundSender p t.sender t.publicKey = true ∧
        ∃ publicKey signature, p.decodeString t.publicKey = some publicKey ∧
          p.decodeString t.signature = some signature ∧ publicKey.length = 32 ∧
          signature.length = 64 ∧
          p.ed25519 publicKey (canonicalBytes p t.toCoreFields) signature = true := by
  rw [verify]
  cases validateBasic p t with
  | some err => simp
  | none =>
    cases isBoundSender p t.sender t.publicKey with
    | false => simp
    | true =>
      cases p.decodeString t.publicKey with
      | none => simp
      | some publicKey =>
        cases p.decodeString t.signature with
        | none => simp
        | some signature =>
          by_cases hlen : publicKey.length ≠ 32 ∨ signature.length ≠ 64
          · grind
          · grind

lemma txID_of_verify (h : verify p t = none) : t.txID = computeID p t.toCoreFields := by
  have hbasic : validateBasic p t = none := (verify_iff.1 h).1
  unfold validateBasic at hbasic
  by_contra hne
  simp only [hne, ne_eq, not_false_eq_true, if_true] at hbasic
  repeat' split at hbasic
  all_goals cases hbasic

lemma unsigned_eq_of_txID (hfree : p.CollisionFree) {t' : Transaction} (h : verify p t = none)
    (h' : verify p t' = none) (hid : t.txID = t'.txID) :
    t.toUnsignedTransaction = t'.toUnsignedTransaction := by
  have hcore : t.toCoreFields = t'.toCoreFields :=
    computeID_injective hfree ((txID_of_verify h).symm.trans (hid.trans (txID_of_verify h')))
  obtain ⟨⟨core, id⟩, signature⟩ := t
  simp only at hcore hid
  rw [hcore, hid]

end ChainLab.Proposal
