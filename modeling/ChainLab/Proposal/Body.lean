import ChainLab.Home.Delta
import ChainLab.Proposal.Transaction

/-!
# Proposed blocks

`block.Block` with all its fields, `block.Hash`, and the two checks of a proposal:
`validateConsensusBlockBody` and `verifyExecutionPlanEnvelope`.  The checks that belong to a plug-in
are parameters of the runtime.  None of them reads the signature of a transaction, so they are given
the block without signatures; the evidence checks of Aria and Porygon, which digest whole
transactions, get the block itself.
-/

namespace ChainLab.Proposal

open Json (field omitZero omitNil pointer)
open Home (SystemStateDelta)

/-! ## Data -/

structure ProposalEvidenceEnvelope where
  algorithmID : String
  payloadDigest : String
  payload : String
deriving DecidableEq, Repr

structure ExecutionPlanEnvelope where
  algorithmID : String
  payloadDigest : String
  planDigest : String
  payload : String
deriving DecidableEq, Repr

/-- A block but for the bodies of its transactions. -/
structure Header where
  blockHash : String := ""
  shardID : String := ""
  height : Nat := 0
  previousHash : String := ""
  proposerID : String := ""
  timestamp : Int := 0
  txIDs : List String := []
  txRoot : String := ""
  stateRootBefore : String := ""
  stateRootAfter : String := ""
  receiptRoot : String := ""
  proposerDigest : String := ""
  stateCommit : Bool := false
  crossShardProtocol : Bool := false
  systemStateDeltas : List SystemStateDelta := []
  executionPlan : Option ExecutionPlanEnvelope := none
  proposalEvidence : Option ProposalEvidenceEnvelope := none
deriving DecidableEq

structure Block extends Header where
  txList : List Transaction := []
deriving DecidableEq

structure UnsignedBlock extends Header where
  txList : List UnsignedTransaction := []
deriving DecidableEq

def Block.unsigned (b : Block) : UnsignedBlock where
  toHeader := b.toHeader
  txList := b.txList.map Transaction.toUnsignedTransaction

/-! ## Digests -/

def SystemStateDelta.fields (d : SystemStateDelta) : List Json.Field :=
  [field "delta_id" .str d.deltaID, field "key" .str d.key, field "value" .str d.value,
    omitZero "tx_id" "" .str d.txID, omitNil "tx_ids" .str d.txIDs,
    omitZero "update_semantics" "" .str d.updateSemantics, omitZero "delta" 0 .num d.delta,
    omitZero "base_value" "" .str d.baseValue,
    omitZero "base_value_digest" "" .str d.baseValueDigest,
    omitZero "apply_origin" "" .str d.applyOrigin, omitZero "delta_kind" "" .str d.deltaKind,
    omitZero "has_initial_value" false .bool d.hasInitialValue,
    field "initial_value" .num d.initialValue, field "home_shard" .str d.homeShard,
    field "execution_shard" .str d.executionShard, field "source_key" .str d.sourceKey,
    field "source_height" .nat d.sourceHeight, omitZero "routing_ordinal" 0 .nat d.routingOrdinal,
    omitZero "previous_version" 0 .nat d.previousVersion,
    omitZero "produced_version" 0 .nat d.producedVersion,
    omitZero "ordering_noop" false .bool d.orderingNoop,
    field "source_block_hash" .str d.sourceBlockHash]

def SystemStateDelta.json (d : SystemStateDelta) : Json :=
  .object (SystemStateDelta.fields d)

/-- The hash covers the digests of the plan, not its payload. -/
def ExecutionPlanEnvelope.core (e : ExecutionPlanEnvelope) : List Json.Field :=
  [field "algorithm_id" .str e.algorithmID, field "payload_digest" .str e.payloadDigest,
    field "plan_digest" .str e.planDigest]

def ProposalEvidenceEnvelope.core (e : ProposalEvidenceEnvelope) : List Json.Field :=
  [field "algorithm_id" .str e.algorithmID, field "payload_digest" .str e.payloadDigest]

def Header.core (b : Header) : List Json.Field :=
  [field "shard_id" .str b.shardID, field "height" .nat b.height,
    field "previous_hash" .str b.previousHash, field "proposer_id" .str b.proposerID,
    field "timestamp" .num b.timestamp, field "tx_ids" (.list .str) b.txIDs,
    field "tx_root" .str b.txRoot, field "state_root_before" .str b.stateRootBefore,
    field "state_root_after" .str b.stateRootAfter, field "receipt_root" .str b.receiptRoot,
    omitNil "system_state_deltas" SystemStateDelta.json b.systemStateDeltas,
    pointer "execution_plan" (fun e => .object e.core) b.executionPlan,
    pointer "proposal_evidence" (fun e => .object e.core) b.proposalEvidence]

section Digests

variable (p : Primitives)

/-- `block.TxRoot`. -/
def txRoot (txIDs : List String) : String :=
  p.digest (.list .str txIDs)

/-- `block.Hash`. -/
def hash (b : Header) : String :=
  p.digest (.object b.core)

def assignHash (b : Block) : Block :=
  let rooted : Header :=
    { b.toHeader with txRoot := txRoot p b.txIDs, proposerDigest := txRoot p b.txIDs }
  { b with toHeader := { rooted with blockHash := hash p rooted } }

/-- `stableJSONDigest` of a list of transactions. -/
def transactionsDigest (items : List Transaction) : String :=
  p.digest (.list Transaction.json items)

end Digests

/-! ## The body of a block -/

section

variable (p : Primitives)

/-- The loop of `validateConsensusBlockStructuralV1` over the transactions and their identifiers. -/
def validateTransactions (strict : Bool) (index : Nat) (seen : List String) :
    List String → List Transaction → Option String
  | id :: ids, item :: items =>
    if blank item.txID then
      some ("consensus block transaction " ++ Text.formatUint index ++ " has empty tx id")
    else if id ≠ item.txID then
      some ("consensus block transaction id/body mismatch at index " ++ Text.formatUint index)
    else if item.txID ∈ seen then
      some ("consensus block contains duplicate transaction id " ++ item.txID)
    else
      match if strict then verify p item else none with
      | some err =>
        some ("consensus block transaction " ++ item.txID ++
          " failed signature/body verification: " ++ err)
      | none => validateTransactions strict (index + 1) (item.txID :: seen) ids items
  | _, _ => none

def validateConsensusBlockStructuralV1 (strict : Bool) (b : Block) : Option String :=
  if b.blockHash = "" then some "consensus block has empty block hash"
  else if hash p b.toHeader ≠ b.blockHash then
    some ("consensus block hash mismatch at height " ++ Text.formatUint b.height)
  else if b.txIDs.length ≠ b.txList.length then
    some ("consensus block transaction body count mismatch: tx_ids=" ++
      Text.formatUint b.txIDs.length ++ " tx_list=" ++ Text.formatUint b.txList.length)
  else if txRoot p b.txIDs ≠ b.txRoot then
    some ("consensus block transaction root mismatch at height " ++ Text.formatUint b.height)
  else validateTransactions p strict 0 [] b.txIDs b.txList

end

def fail (condition : Prop) [Decidable condition] (err : String) : Option String :=
  if condition then some err else none

def firstError (checks : List (Option String)) : Option String :=
  checks.findSome? id

/-! ## Evidence of Aria -/

/-- What both forms of Aria's evidence hold.  The flags of the executor, the scan limit, the metrics
and the trace are not read by the check. -/
structure AriaSelection where
  shardID : String
  height : Nat
  candidateCount : Int
  selectionLimit : Int
  candidateTxIDs : List String
  candidateLogicalIDs : List String
  candidatePayloadDigest : String
  selectedTxIDs : List String
  selectedLogicalIDs : List String
  deferredTxIDs : List String
  deferredLogicalIDs : List String
  deferredReasons : List (String × String)
  selectionResultDigest : String
  selectionSemanticDigest : String

structure AriaCandidateSelectionEvidence extends AriaSelection where
  candidateTransactions : List Transaction

structure AriaCandidateSelectionConsensusWire extends AriaSelection where
  deferredTransactions : List Transaction

def ariaCandidateSelectionEvidenceID : String := "aria_candidate_selection_v2"

def ariaCandidateSelectionConsensusWireVersion : String :=
  "aria_candidate_selection_compact_wire_v1"

def groundhogCandidateSelectionEvidenceID : String := "groundhog_candidate_selection_v1"

def porygonProposalEvidenceID : String := "porygon_transaction_block_v2"

/-- `tx.SemanticID`. -/
def semanticID (t : Transaction) : String :=
  if ¬ blank t.logicalTxID then Text.trimSpace t.logicalTxID
  else if ¬ blank t.traceSourceID then Text.trimSpace t.traceSourceID
  else t.txID

def transactionIDs (items : List Transaction) : List String :=
  items.map fun item => item.txID

def logicalTransactionIDs (items : List Transaction) : List String :=
  items.map semanticID

/-- The first identifier that is empty or has been seen before. -/
def firstRepeated (seen : List String) : List String → Option String
  | [] => none
  | id :: ids => if id = "" ∨ id ∈ seen then some id else firstRepeated (id :: seen) ids

/-- The maps from identifiers to transactions hold each identifier once, so a lookup finds the
transaction of the list. -/
def lookup (items : List Transaction) (id : String) : Option Transaction :=
  items.find? fun item => item.txID = id

section Aria

variable (p : Primitives)

/-- The loop of the partition check over the deferred transactions. -/
def checkDeferred (reasons : List (String × String)) (seen : List String) : List String →
    Option String
  | [] => none
  | id :: ids =>
    if id = "" ∨ id ∈ seen then
      some ("aria selection partition contains duplicate transaction id " ++ id)
    else if (reasons.lookup id).getD "" = "" then
      some ("aria deferred transaction " ++ id ++ " is missing its reason")
    else checkDeferred reasons (id :: seen) ids

/-- The checks of `validateAriaCandidateSelectionEvidence` on counts and identifiers. -/
def validateAriaCounts (b : Header) (e : AriaSelection) (items : List Transaction) :
    Option String :=
  firstError [fail (e.shardID ≠ b.shardID ∨ e.height ≠ b.height)
        "aria candidate evidence block identity mismatch",
      fail (e.candidateCount ≠ items.length ∨ e.candidateCount ≠ e.candidateTxIDs.length ∨
          e.candidateCount ≠ e.candidateLogicalIDs.length)
        "aria candidate evidence count mismatch",
      fail (e.selectedTxIDs.length ≠ e.selectedLogicalIDs.length ∨
          e.deferredTxIDs.length ≠ e.deferredLogicalIDs.length ∨
          (e.selectedTxIDs.length : Int) + e.deferredTxIDs.length ≠ e.candidateCount)
        "aria selected/deferred evidence count mismatch",
      fail (e.selectionLimit < 1 ∨ e.candidateCount < e.selectionLimit)
        ("aria candidate evidence invalid selection limit: " ++ Text.formatInt e.selectionLimit),
      fail (transactionIDs items ≠ e.candidateTxIDs ∨
        logicalTransactionIDs items ≠ e.candidateLogicalIDs)
        "aria candidate transaction identity mismatch",
      (firstRepeated [] (transactionIDs items)).map fun id =>
        "aria candidate batch contains duplicate or empty transaction id " ++ id,
      (e.selectedTxIDs.find? fun id => (lookup items id).isNone).map fun id =>
        "aria selected transaction " ++ id ++ " is not in candidate batch"]

/-- Its checks on the partition into selected and deferred transactions. -/
def validateAriaPartition (e : AriaSelection) : Option String :=
  firstError [(firstRepeated [] e.selectedTxIDs).map fun _ =>
        "aria selection contains duplicate or empty transaction id",
      checkDeferred e.deferredReasons e.selectedTxIDs e.deferredTxIDs,
      (e.candidateTxIDs.find? fun id => id ∉ e.selectedTxIDs ∧ id ∉ e.deferredTxIDs).map fun id =>
        "aria candidate " ++ id ++ " is missing from selected/deferred partition",
      fail ((e.selectedTxIDs.length : Int) + e.deferredTxIDs.length ≠ e.candidateCount)
        "aria selected/deferred partition size mismatch",
      fail (e.selectionResultDigest = "") "aria selection result digest is empty",
      fail (e.selectionSemanticDigest = "") "aria selection semantic digest is empty"]

/-- `validateAriaCandidateSelectionEvidence`: the text of the first error. -/
def validateAriaCandidateSelectionEvidence (b : Block) (e : AriaCandidateSelectionEvidence) :
    Option String :=
  firstError [validateAriaCounts b.toHeader e.toAriaSelection e.candidateTransactions,
      -- Whole transactions are compared here, signatures included.
      fail (transactionsDigest p (e.selectedTxIDs.filterMap (lookup e.candidateTransactions)) ≠
          transactionsDigest p b.txList)
        "aria selected transaction payload mismatch",
      fail (e.selectedTxIDs ≠ b.txIDs) "aria selected transaction list mismatch",
      fail (transactionsDigest p e.candidateTransactions ≠ e.candidatePayloadDigest)
        "aria candidate payload mismatch: digest commitment mismatch",
      validateAriaPartition e.toAriaSelection]

/-- The evidence with the transactions of the block put back. -/
def AriaCandidateSelectionConsensusWire.reconstruct (w : AriaCandidateSelectionConsensusWire)
    (b : Block) : AriaCandidateSelectionEvidence where
  toAriaSelection := w.toAriaSelection
  candidateTransactions := w.candidateTxIDs.filterMap fun id =>
    (lookup b.txList id).or (lookup w.deferredTransactions id)

/-- The check of the evidence in its wire form. -/
def validateAriaWire (b : Block) (w : AriaCandidateSelectionConsensusWire) : Option String :=
  firstError [fail (transactionIDs w.deferredTransactions ≠ w.deferredTxIDs ∨
          logicalTransactionIDs w.deferredTransactions ≠ w.deferredLogicalIDs)
        "aria compact deferred transaction identity mismatch",
      (firstRepeated [] (transactionIDs b.txList)).map fun id =>
        "aria accepted block contains duplicate or empty transaction id " ++ id,
      (firstRepeated (transactionIDs b.txList) (transactionIDs w.deferredTransactions)).map
        fun id => "aria compact deferred transaction set is invalid for " ++ id,
      (w.candidateTxIDs.find? fun id =>
          ((lookup b.txList id).or (lookup w.deferredTransactions id)).isNone).map fun id =>
        "aria compact candidate " ++ id ++ " cannot be reconstructed",
      validateAriaCandidateSelectionEvidence p b (w.reconstruct b)]

end Aria

/-! ## The runtime of a validator -/

inductive BlockProducer where
  | aria
  | groundhog
  | porygon
  | metaTrackNLWindow
  | timeOrCount
  | other (id : String)
deriving DecidableEq, Repr

def BlockProducer.id : BlockProducer → String
  | .aria => "aria_block_producer"
  | .groundhog => "groundhog_block_producer"
  | .porygon => "porygon_transaction_block_producer"
  | .metaTrackNLWindow => "metatrack_nl_window_v669"
  | .timeOrCount => "time_or_count_block_producer"
  | .other id => id

inductive Frontier where
  | partitionInvariantV658
  | streamingWindowV2
  | singleProjection
  | transactionFrontierV656
  | criticalWidthWindowV6568
  | roundBandedV6567
deriving DecidableEq, Repr

def Frontier.context : Frontier → String
  | .partitionInvariantV658 =>
    "consensus block MetaTrack v6.5.8 partition-invariant frontier validation: "
  | .streamingWindowV2 => "consensus block MetaTrack v2 leader-streaming window validation: "
  | .singleProjection => "consensus block MetaTrack v2 single-projection frontier validation: "
  | .transactionFrontierV656 => "consensus block MetaTrack v6.5.6 frontier validation: "
  | .criticalWidthWindowV6568 =>
    "consensus block MetaTrack v6.5.6.8 critical-width window validation: "
  | .roundBandedV6567 => "consensus block MetaTrack v6.5.6.7 round-band validation: "

def Frontier.validator : Frontier → Frontier
  | .singleProjection => .transactionFrontierV656
  | f => f

structure GroundhogEvidence where
  shardID : String
  height : Nat
  selectedTxIDs : List String

/-- Checks and decoders that belong to plug-ins. -/
structure Plugins where
  blockProducer : Option BlockProducer
  schedulerID : String
  /-- `VerifyBlockPlan`, when the scheduler plans before consensus. -/
  planner : Option (UnsignedBlock → Option String)
  batchExecutionPlanAlgorithmID : String
  verifyMetaTrackExecutionPlanPayload : UnsignedBlock → Option String
  partitionInvariantConsensusV658 : Bool
  /-- Whether the block carries the metadata of a frontier. -/
  carries : Frontier → UnsignedBlock → Bool
  frontier : Frontier → UnsignedBlock → Option String
  ariaWireVersion : String → Except String String
  ariaEvidence : String → Except String AriaCandidateSelectionEvidence
  ariaWire : String → Except String AriaCandidateSelectionConsensusWire
  groundhogEvidence : String → Except String GroundhogEvidence
  /-- The digest of the whole bodies that Porygon's evidence commits to. -/
  porygonFullBodyDigest : String → Except String String
  /-- The other checks of Porygon's evidence. -/
  porygonEvidence : UnsignedBlock → Option String

structure VerifiedExecutionPlanRecord where
  algorithmID : String
  payloadDigest : String
  planDigest : String
deriving DecidableEq, Repr

structure Runtime where
  plugins : Plugins
  pbftAuthenticationRequired : Bool
  verifiedExecutionPlans : GoMap String VerifiedExecutionPlanRecord

namespace Runtime

variable (p : Primitives) (r : Runtime)

/-- Which frontier a block is checked against. -/
def frontierOf (b : UnsignedBlock) : Option Frontier :=
  if r.plugins.partitionInvariantConsensusV658 ∧ b.txList ≠ [] then some .partitionInvariantV658
  else if r.plugins.blockProducer = some .metaTrackNLWindow ∧
      r.plugins.carries .streamingWindowV2 b then some .streamingWindowV2
  else if r.plugins.blockProducer = some .timeOrCount ∧
      r.plugins.carries .transactionFrontierV656 b then some .singleProjection
  else if r.plugins.carries .criticalWidthWindowV6568 b then some .criticalWidthWindowV6568
  else if r.plugins.carries .roundBandedV6567 b then some .roundBandedV6567
  else if r.plugins.carries .transactionFrontierV656 b then some .transactionFrontierV656
  else none

def checkFrontier (b : UnsignedBlock) : Option String :=
  match r.frontierOf b with
  | none => none
  | some f => (r.plugins.frontier f.validator b).map fun err => f.context ++ err

def validateConsensusBlockBody (b : Block) : Option String :=
  (validateConsensusBlockStructuralV1 p r.pbftAuthenticationRequired b).or
    (r.checkFrontier b.unsigned)

def decodeAriaCandidateSelectionEvidence (b : Block) : Option String :=
  match b.proposalEvidence with
  | none => some "aria block requires full candidate selection evidence"
  | some envelope =>
    if envelope.algorithmID ≠ ariaCandidateSelectionEvidenceID then
      some "aria block requires full candidate selection evidence"
    else
      match r.plugins.ariaWireVersion envelope.payload with
      | .error err => some ("decode aria candidate selection evidence header: " ++ err)
      | .ok version =>
        if version = "" then
          match r.plugins.ariaEvidence envelope.payload with
          | .error err => some ("decode legacy aria candidate selection evidence: " ++ err)
          | .ok evidence => validateAriaCandidateSelectionEvidence p b evidence
        else if version ≠ ariaCandidateSelectionConsensusWireVersion then
          some ("unsupported aria candidate evidence wire " ++ version)
        else
          match r.plugins.ariaWire envelope.payload with
          | .error err => some ("decode compact aria candidate selection evidence: " ++ err)
          | .ok wire => validateAriaWire p b wire

/-- `VerifyProposalEvidence` of Porygon's producer and the witness checks after it.  Bodies that are
there have to match the digest; a compact proposal of Porygon's own has none. -/
def verifyPorygonEvidence (b : Block) : Option String :=
  match b.proposalEvidence with
  | none => some "porygon transaction block evidence missing"
  | some envelope =>
    firstError [fail (envelope.algorithmID ≠ porygonProposalEvidenceID)
          ("porygon proposal evidence algorithm mismatch: " ++ envelope.algorithmID),
        fail (envelope.payloadDigest = "" ∨ envelope.payload = "")
          "porygon proposal evidence envelope is incomplete",
        fail (p.sha256 envelope.payload ≠ envelope.payloadDigest)
          "porygon proposal evidence payload digest mismatch",
        match r.plugins.porygonFullBodyDigest envelope.payload with
        | .error err => some ("decode porygon transaction block evidence: " ++ err)
        | .ok bodyDigest =>
          fail (b.txList ≠ [] ∧ transactionsDigest p b.txList ≠ bodyDigest)
            "porygon transaction block evidence mismatch",
        r.plugins.porygonEvidence b.unsigned]

def checkGroundhogEvidence (b : Header) (payload : String) : Option String :=
  match r.plugins.groundhogEvidence payload with
  | .error err => some ("proposal evidence payload decode: " ++ err)
  | .ok evidence =>
    firstError [fail (evidence.shardID ≠ b.shardID ∨ evidence.height ≠ b.height)
          "proposal evidence block identity mismatch",
        fail (String.intercalate "|" evidence.selectedTxIDs ≠ String.intercalate "|" b.txIDs)
          "proposal evidence selected transaction list mismatch"]

def expectedAlgorithm : String :=
  match r.plugins.blockProducer with
  | some .aria => ariaCandidateSelectionEvidenceID
  | some .groundhog => groundhogCandidateSelectionEvidenceID
  | _ => ""

/-- The checks of an evidence envelope that is there, for producers other than Porygon's. -/
def checkEvidence (b : Block) (envelope : ProposalEvidenceEnvelope) : Option String :=
  firstError [fail (envelope.algorithmID = "" ∨ envelope.payloadDigest = "" ∨ envelope.payload = "")
        "invalid proposal evidence envelope",
      fail (p.sha256 envelope.payload ≠ envelope.payloadDigest)
        "proposal evidence payload digest mismatch",
      fail (r.expectedAlgorithm = "" ∨ envelope.algorithmID ≠ r.expectedAlgorithm)
        ("proposal evidence algorithm mismatch: expected=" ++ r.expectedAlgorithm ++ " got=" ++
          envelope.algorithmID),
      if r.expectedAlgorithm = ariaCandidateSelectionEvidenceID then
        r.decodeAriaCandidateSelectionEvidence p b
      else r.checkGroundhogEvidence b.toHeader envelope.payload]

def verifyProposalEvidenceEnvelope (b : Block) : Option String :=
  if r.plugins.blockProducer = some .porygon then r.verifyPorygonEvidence p b
  else
    match b.proposalEvidence with
    | some envelope => r.checkEvidence p b envelope
    | none =>
      match r.plugins.blockProducer with
      | some producer =>
        fail ((producer = .aria ∨ producer = .groundhog) ∧ b.txList ≠ [])
          (producer.id ++ " requires proposal selection evidence")
      | none => none

def verifiedExecutionPlanRecordForBlock (b : Header) : Option VerifiedExecutionPlanRecord :=
  match b.executionPlan with
  | none => none
  | some plan =>
    if b.blockHash = "" ∨ plan.algorithmID = "" ∨ plan.payloadDigest = "" ∨ plan.planDigest = ""
    then none
    else some ⟨plan.algorithmID, plan.payloadDigest, plan.planDigest⟩

def hasVerifiedExecutionPlan (b : Header) : Bool :=
  match verifiedExecutionPlanRecordForBlock b with
  | none => false
  | some record => r.verifiedExecutionPlans.find b.blockHash = some record

def rememberVerifiedExecutionPlan (b : Header) : Runtime :=
  match verifiedExecutionPlanRecordForBlock b with
  | none => r
  | some record =>
    { r with verifiedExecutionPlans := r.verifiedExecutionPlans.put b.blockHash record }

/-- The part of `verifyExecutionPlanEnvelope` on a plan that is there. -/
def verifyPlan (b : UnsignedBlock) (plan : ExecutionPlanEnvelope) : Option String :=
  firstError [fail (plan.algorithmID = "" ∨ plan.payloadDigest = "" ∨ plan.planDigest = "" ∨
          plan.payload = "") "invalid execution plan envelope",
      fail (p.sha256 plan.payload ≠ plan.payloadDigest) "execution plan payload digest mismatch",
      match r.plugins.planner with
      | some verifyBlockPlan =>
        -- A plan that was verified for the same block before is not built again.
        if r.hasVerifiedExecutionPlan b.toHeader then none else verifyBlockPlan b
      | none =>
        firstError [fail (r.plugins.batchExecutionPlanAlgorithmID = "" ∨
                plan.algorithmID ≠ r.plugins.batchExecutionPlanAlgorithmID)
              ("execution plan algorithm mismatch: expected=" ++
                r.plugins.batchExecutionPlanAlgorithmID ++ " got=" ++ plan.algorithmID),
            r.plugins.verifyMetaTrackExecutionPlanPayload b]]

/-- The checks of `verifyExecutionPlanEnvelope` after that of the evidence. -/
def checkExecutionPlan (b : UnsignedBlock) : Option String :=
  firstError [match b.executionPlan with
      | none =>
        fail (r.plugins.planner.isSome)
          ("scheduler " ++ r.plugins.schedulerID ++ " requires a pre-consensus execution plan")
      | some plan => r.verifyPlan p b plan,
      fail (b.blockHash ≠ hash p b.toHeader)
        "block hash mismatch after execution plan verification"]

/-- `verifyExecutionPlanEnvelope`, with the runtime that remembers the plan. -/
def verifyExecutionPlanEnvelope (b : Block) : Runtime × Option String :=
  match (r.verifyProposalEvidenceEnvelope p b).or (r.checkExecutionPlan p b.unsigned) with
  | some err => (r, some err)
  | none =>
    (if r.plugins.planner.isSome then r.rememberVerifiedExecutionPlan b.toHeader else r, none)

def Accepts (b : Block) : Prop :=
  r.validateConsensusBlockBody p b = none ∧ (r.verifyExecutionPlanEnvelope p b).2 = none

end Runtime

end ChainLab.Proposal
