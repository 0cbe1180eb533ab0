import ChainLab.Data.VersionChain
import ChainLab.State.Database

/-!
# Deltas sent to a home shard

A shard that executes a transaction on keys of another shard sends the changes there.  The home
shard queues them (`handleStateDeltaApplyRequest`), takes queued changes into its own blocks
(`selectRemoteStateDeltasForHomeBlock`), and applies the ones of a committed block to its database
(`commitHomeBlock`).

A versioned change carries the version it replaces and the version it makes.  The changes of two
origins have to follow the chain of versions; those of the other origins are taken as they come, and
a change whose version is not above the last one applied is dropped.  A change of the first of the
two origins is readable at the home shard before it is applied, once all versions before it are
(`publishReadyMethodPreservingHomeVersions`).
-/

namespace ChainLab.Home

open State (Sha StateKV DB CASMismatchError)

def methodPreservingVersionedRemoteHomeOrigin : String := "optme_txallo_versioned_remote_home_v10"

def txalloPaperReplicaOrigin : String := "txallo_paper_replicated_state_v229"

def calvinStatelessSameBlockOrigin : String := "calvin_stateless_same_block"

def Chained (applyOrigin : String) : Prop :=
  applyOrigin = methodPreservingVersionedRemoteHomeOrigin ∨ applyOrigin = txalloPaperReplicaOrigin

instance (applyOrigin : String) : Decidable (Chained applyOrigin) :=
  inferInstanceAs (Decidable (_ ∨ _))

def Versioned (producedVersion : Nat) (updateSemantics : String) : Prop :=
  0 < producedVersion ∧ updateSemantics ≠ "commutative_delta"

instance (producedVersion : Nat) (updateSemantics : String) :
    Decidable (Versioned producedVersion updateSemantics) :=
  inferInstanceAs (Decidable (_ ∧ _))

/-! ## Requests -/

structure StateDeltaApplyRequest where
  requestID : String := ""
  txID : String := ""
  txIDs : List String := []
  blockHash : String := ""
  key : String
  value : String := ""
  updateSemantics : String := ""
  delta : Int := 0
  baseValue : String := ""
  baseValueDigest : String := ""
  applyOrigin : String := ""
  deltaKind : String := ""
  hasInitialValue : Bool := false
  initialValue : Int := 0
  homeShard : String := ""
  executionShard : String := ""
  sourceKey : String := ""
  sourceHeight : Nat := 0
  routingOrdinal : Nat := 0
  previousVersion : Nat := 0
  producedVersion : Nat := 0
  orderingNoop : Bool := false
  producedVersion_le : producedVersion ≤ Text.maxUint64 := by decide
deriving DecidableEq

structure StateDeltaApplyAck where
  request : StateDeltaApplyRequest
  qualifiedKey : String
  valueDigest : String
  stateRoot : String
  witnessDigest : String := ""
  success : Bool := true
  error : String := ""

structure SystemStateDelta where
  deltaID : String
  key : String
  value : String
  txID : String
  txIDs : List String
  updateSemantics : String
  delta : Int
  baseValue : String
  baseValueDigest : String
  applyOrigin : String
  deltaKind : String
  hasInitialValue : Bool
  initialValue : Int
  homeShard : String
  executionShard : String
  sourceKey : String
  sourceHeight : Nat
  routingOrdinal : Nat
  previousVersion : Nat
  producedVersion : Nat
  orderingNoop : Bool
  sourceBlockHash : String
deriving DecidableEq

def StateDeltaApplyRequest.versioned (request : StateDeltaApplyRequest) : Prop :=
  Versioned request.producedVersion request.updateSemantics

def SystemStateDelta.versioned (item : SystemStateDelta) : Prop :=
  Versioned item.producedVersion item.updateSemantics

instance (request : StateDeltaApplyRequest) : Decidable request.versioned :=
  inferInstanceAs (Decidable (Versioned _ _))

instance (item : SystemStateDelta) : Decidable item.versioned :=
  inferInstanceAs (Decidable (Versioned _ _))

/-- `fmt.Sprint` of a `bool`. -/
def boolText (b : Bool) : String :=
  if b then "true" else "false"

variable (sha : Sha)

/-- The identity under which a request is queued.  The value is not a part of it. -/
def stateDeltaApplyKey (request : StateDeltaApplyRequest) : String :=
  sha.text
    ("|".intercalate [Text.formatUint request.routingOrdinal, Text.formatUint request.sourceHeight,
    request.blockHash, request.sourceKey, request.key, request.txID, request.updateSemantics,
    Text.formatInt request.delta, request.baseValueDigest, request.applyOrigin, request.deltaKind,
    boolText request.hasInitialValue, Text.formatInt request.initialValue,
    Text.formatUint request.previousVersion, Text.formatUint request.producedVersion,
    boolText request.orderingNoop, request.homeShard, request.executionShard])

def stateDeltaApplyWitnessDigest (ack : StateDeltaApplyAck) : String :=
  let request := ack.request
  sha.text ("|".intercalate [request.blockHash, ack.qualifiedKey, ack.valueDigest, ack.stateRoot,
    request.homeShard, request.executionShard, request.updateSemantics,
      Text.formatInt request.delta,
    request.baseValueDigest, request.applyOrigin, request.deltaKind,
      boolText request.hasInitialValue,
    Text.formatInt request.initialValue, Text.formatUint request.previousVersion,
    Text.formatUint request.producedVersion, boolText request.orderingNoop])

def systemStateDeltaFromRequest (request : StateDeltaApplyRequest) : SystemStateDelta where
  deltaID := stateDeltaApplyKey sha request
  key := request.key
  value := request.value
  txID := request.txID
  txIDs := request.txIDs
  updateSemantics := request.updateSemantics
  delta := request.delta
  baseValue := request.baseValue
  baseValueDigest := request.baseValueDigest
  applyOrigin := request.applyOrigin
  deltaKind := request.deltaKind
  hasInitialValue := request.hasInitialValue
  initialValue := request.initialValue
  homeShard := request.homeShard
  executionShard := request.executionShard
  sourceKey := request.sourceKey
  sourceHeight := request.sourceHeight
  routingOrdinal := request.routingOrdinal
  previousVersion := request.previousVersion
  producedVersion := request.producedVersion
  orderingNoop := request.orderingNoop
  sourceBlockHash := request.blockHash

/-! ## The order of requests -/

def remoteDeltaSemanticsRank (semantics : String) : Nat :=
  if semantics = "commutative_delta" then 1 else 0

def remoteDeltaConsensusOrder (request : StateDeltaApplyRequest) : String :=
  if request.versioned then
    "|".intercalate ["versioned", request.key, Text.paddedUint 20 request.producedVersion,
      request.txID, request.executionShard, request.blockHash]
  else
    let ordinal := if request.routingOrdinal = 0 then Text.maxUint64 else request.routingOrdinal
    "|".intercalate ["legacy", Text.paddedUint 20 ordinal, request.key,
      Text.paddedUint 20 request.sourceHeight, request.blockHash,
      Text.paddedUint 2 (remoteDeltaSemanticsRank request.updateSemantics),
      Text.paddedInt 20 request.delta, request.txID, request.executionShard, request.sourceKey]

/-- `sort.SliceStable` by the order of consensus. -/
def ordered (requests : List StateDeltaApplyRequest) : List StateDeltaApplyRequest :=
  requests.insertionSort fun a b => remoteDeltaConsensusOrder a ≤ remoteDeltaConsensusOrder b

lemma mem_ordered {requests : List StateDeltaApplyRequest} {request : StateDeltaApplyRequest} :
    request ∈ ordered requests ↔ request ∈ requests :=
  List.mem_insertionSort _

lemma ordered_pairwise (requests : List StateDeltaApplyRequest) :
    (ordered requests).Pairwise fun a b =>
      remoteDeltaConsensusOrder a ≤ remoteDeltaConsensusOrder b := by
  exact List.pairwise_insertionSort _ requests

lemma remoteDeltaConsensusOrder_versioned {request : StateDeltaApplyRequest}
    (h : request.versioned) :
    remoteDeltaConsensusOrder request = ("versioned|" ++ request.key ++ "|") ++
      (Text.paddedUint 20 request.producedVersion ++
        ("|" ++ request.txID ++ "|" ++ request.executionShard ++ "|" ++ request.blockHash)) := by
  rw [remoteDeltaConsensusOrder, if_pos h]
  simp only [String.intercalate_cons_cons, String.intercalate_singleton, String.append_assoc]
  rfl

/-- Versioned requests of one key are in the order of their versions: twenty places hold every
version of 64 bits. -/
lemma producedVersion_le_of_order {a b : StateDeltaApplyRequest} (ha : a.versioned)
    (hb : b.versioned) (hkey : a.key = b.key)
    (horder : remoteDeltaConsensusOrder a ≤ remoteDeltaConsensusOrder b) :
    a.producedVersion ≤ b.producedVersion := by
  apply Nat.le_of_not_lt
  intro hlt
  have hbound : a.producedVersion < 10 ^ 20 := lt_of_le_of_lt a.producedVersion_le (by decide)
  apply absurd horder
  apply not_le_of_gt
  rw [remoteDeltaConsensusOrder_versioned hb, remoteDeltaConsensusOrder_versioned ha, ← hkey]
  exact Text.paddedUint_lt _ _ _ hlt hbound

/-! ## The runtime of a home node -/

structure Runtime where
  stateAccessPartitionID : String
  db : DB
  pendingStateDeltas : List StateDeltaApplyRequest := []
  pendingStateDeltaKeys : GoMap String Bool := ∅
  appliedStateDeltaKeys : GoMap String Bool := ∅
  stateVersionMaterialized : GoMap String Nat := ∅
  methodPreservingHomeVisibleVersion : GoMap String Nat := ∅
  stateVersionValues : GoMap String (GoMap Nat String) := ∅

namespace Runtime

def published (r : Runtime) (key : String) (version : Nat) : Option String :=
  (r.stateVersionValues.get key).find version

/-- `publishStateVersionLocked`: a published value is never replaced by another one. -/
def publishStateVersion (r : Runtime) (key : String) (version : Nat) (value : String) : Runtime :=
  if version = 0 ∨ key = "" then r
  else if (r.published key version).any (· != value) then r
  else { r with stateVersionValues := r.stateVersionValues.putIn key version value }

/-- A version that is materialized is visible. -/
def catchUp (r : Runtime) (key : String) : Runtime :=
  if r.methodPreservingHomeVisibleVersion.get key < r.stateVersionMaterialized.get key then
    { r with
      methodPreservingHomeVisibleVersion :=
        r.methodPreservingHomeVisibleVersion.put key (r.stateVersionMaterialized.get key) }
  else r

/-- Show the version of an item where it replaces the visible one. -/
def showNext (r : Runtime) (item : StateDeltaApplyRequest) : Runtime :=
  let current := r.methodPreservingHomeVisibleVersion.get item.key
  if item.producedVersion ≤ current then r
  else if item.producedVersion ≤ item.previousVersion ∨ item.previousVersion ≠ current then r
  else if (r.published item.key item.producedVersion).any (· != item.value) then r
  else
    let r := r.publishStateVersion item.key item.producedVersion item.value
    { r with
      methodPreservingHomeVisibleVersion :=
        r.methodPreservingHomeVisibleVersion.put item.key item.producedVersion }

/-- The loop body of `publishReadyMethodPreservingHomeVersions`. -/
def publishReady (r : Runtime) (item : StateDeltaApplyRequest) : Runtime :=
  if item.applyOrigin ≠ methodPreservingVersionedRemoteHomeOrigin ∨ ¬ item.versioned ∨
    item.key = "" then r
  else (r.catchUp item.key).showNext item

def publishReadyMethodPreservingHomeVersions (r : Runtime) : Runtime :=
  (ordered r.pendingStateDeltas).foldl publishReady r

/-- Queue a request unless its identity is queued or applied. -/
def enqueue (r : Runtime) (request : StateDeltaApplyRequest) : Runtime :=
  let key := stateDeltaApplyKey sha request
  if r.pendingStateDeltaKeys.get key = false ∧ r.appliedStateDeltaKeys.get key = false then
    { r with
      pendingStateDeltaKeys := r.pendingStateDeltaKeys.put key true
      pendingStateDeltas := r.pendingStateDeltas ++ [request] }
  else r

def wrongHomeShard (r : Runtime) (homeShard : String) : Prop :=
  homeShard ≠ "" ∧ homeShard ≠ r.stateAccessPartitionID

instance (r : Runtime) (homeShard : String) : Decidable (r.wrongHomeShard homeShard) :=
  inferInstanceAs (Decidable (_ ∧ _))

def handleStateDeltaApplyRequest (r : Runtime) (request : StateDeltaApplyRequest) :
    Runtime × StateDeltaApplyAck :=
  let ack : StateDeltaApplyAck :=
    { request := request
      qualifiedKey := request.homeShard ++ "::" ++ request.key
      valueDigest := sha.text ("queued:" ++ request.value)
      stateRoot := r.db.root sha }
  let signed (ack : StateDeltaApplyAck) : StateDeltaApplyAck :=
    { ack with witnessDigest := stateDeltaApplyWitnessDigest sha ack }
  if r.wrongHomeShard request.homeShard then
    (r, signed { ack with success := false, error := "wrong_home_shard" })
  else
    let r := if request.versioned ∧ ¬ Chained request.applyOrigin then
        r.publishStateVersion request.key request.producedVersion request.value
      else r
    let r := r.enqueue sha request
    let r := if request.applyOrigin = methodPreservingVersionedRemoteHomeOrigin ∧
      request.versioned then
        r.publishReadyMethodPreservingHomeVersions
      else r
    (r, signed ack)

end Runtime

/-! ## Selection for a home block -/

structure Selection where
  current : GoMap String Nat
  ready : List StateDeltaApplyRequest := []
  shouldDrain : Bool := false
  blockedMethodVersions : Nat := 0

def remoteStateDeltaReadyForHomeBlock (request : StateDeltaApplyRequest) (homeBlockHeight : Nat) :
    Prop :=
  request.versioned ∨ request.sourceHeight ≤ homeBlockHeight

instance (request : StateDeltaApplyRequest) (homeBlockHeight : Nat) :
    Decidable (remoteStateDeltaReadyForHomeBlock request homeBlockHeight) :=
  inferInstanceAs (Decidable (_ ∨ _))

def Selection.add (homeBlockHeight : Nat) (s : Selection) (request : StateDeltaApplyRequest) :
    Selection :=
  if request.applyOrigin = calvinStatelessSameBlockOrigin then s
  else if Chained request.applyOrigin ∧ request.versioned then
    -- A version that is covered already is selected to take the request from the queue.
    if request.producedVersion ≤ s.current.get request.key then
      { s with ready := s.ready ++ [request], shouldDrain := true }
    else if request.previousVersion ≠ s.current.get request.key then
      { s with blockedMethodVersions := s.blockedMethodVersions + 1 }
    else
      { s with
        ready := s.ready ++ [request]
        current := s.current.put request.key request.producedVersion
        shouldDrain := true }
  else if remoteStateDeltaReadyForHomeBlock request homeBlockHeight then
    { s with ready := s.ready ++ [request], shouldDrain := true }
  else { s with shouldDrain := true }

def selectRemoteStateDeltasForHomeBlock (requests : List StateDeltaApplyRequest)
    (materialized : GoMap String Nat) (homeBlockHeight : Nat) : Selection :=
  (ordered requests).foldl (Selection.add homeBlockHeight) { current := materialized }

def Runtime.readyRemoteStateDeltasForConsensus (r : Runtime) (homeBlockHeight : Nat) :
    List SystemStateDelta :=
  (selectRemoteStateDeltasForHomeBlock r.pendingStateDeltas r.stateVersionMaterialized
    homeBlockHeight).ready.map (systemStateDeltaFromRequest sha)

/-! ## The changes that a block makes -/

def SystemStateDelta.stateKV (blockHeight : Nat) (item : SystemStateDelta) : StateKV where
  key := item.key
  value := item.value
  txIDs := item.txIDs
  updateSemantics := item.updateSemantics
  delta := item.delta
  baseValue := item.baseValue
  baseValueDigest := item.baseValueDigest
  applyOrigin := item.applyOrigin
  deltaKind := item.deltaKind
  hasInitialValue := item.hasInitialValue
  initialValue := item.initialValue
  deltaID := item.deltaID
  blockHeight := blockHeight
  routingOrdinal := item.routingOrdinal
  previousVersion := item.previousVersion
  producedVersion := item.producedVersion
  orderingNoop := item.orderingNoop

def versionChainMismatch (item : SystemStateDelta) (materialized : Nat) : String :=
  "method-preserving Home version chain mismatch key=" ++ item.key ++
    " previous=" ++ Text.formatUint item.previousVersion ++
    " materialized=" ++ Text.formatUint materialized ++
    " produced=" ++ Text.formatUint item.producedVersion

/-- The loop of `materializableRemoteStateDeltasInternal`, from the versions materialized so far. -/
def materializableRemoteStateDeltas (enforceMethodContinuity : Bool) (homeShard : String)
    (blockHeight : Nat) : GoMap String Nat → List SystemStateDelta → Except String (List StateKV)
  | _, [] => .ok []
  | materialized, item :: items =>
    let rest (materialized : GoMap String Nat) := materializableRemoteStateDeltas
      enforceMethodContinuity homeShard blockHeight materialized items
    if item.homeShard ≠ "" ∧ item.homeShard ≠ homeShard then rest materialized
    else if item.versioned then
      if item.producedVersion ≤ materialized.get item.key then rest materialized
      else if enforceMethodContinuity ∧ Chained item.applyOrigin ∧
          item.previousVersion ≠ materialized.get item.key then
        .error (versionChainMismatch item (materialized.get item.key))
      else if item.orderingNoop then
        rest (materialized.put item.key item.producedVersion)
      else
        (rest (materialized.put item.key item.producedVersion)).map (item.stateKV blockHeight :: ·)
    else (rest materialized).map (item.stateKV blockHeight :: ·)

/-- What follows the first `::`. -/
def afterSeparator : List Char → Option (List Char)
  | ':' :: ':' :: rest => some rest
  | _ :: rest => afterSeparator rest
  | [] => none

def logicalKey (key : String) : String :=
  match afterSeparator key.toList with
  | some (c :: rest) => String.ofList (c :: rest)
  | _ => key

/-- The loop of `filterVersionedPhysicalDelta`. -/
def filterVersionedPhysicalDelta : GoMap String Nat → List StateKV → List StateKV
  | _, [] => []
  | materialized, item :: items =>
    if Versioned item.producedVersion item.updateSemantics then
      if item.producedVersion ≤ materialized.get (logicalKey item.key) then
        filterVersionedPhysicalDelta materialized items
      else if item.orderingNoop then
        filterVersionedPhysicalDelta (materialized.put (logicalKey item.key) item.producedVersion)
          items
      else
        item :: filterVersionedPhysicalDelta
          (materialized.put (logicalKey item.key) item.producedVersion) items
    else item :: filterVersionedPhysicalDelta materialized items

/-! ## Commit -/

namespace Runtime

def publishSystemStateDeltaVersions (r : Runtime) (items : List SystemStateDelta) : Runtime :=
  items.foldl (fun r item =>
    if ¬ item.versioned ∨ item.key = "" ∨ Chained item.applyOrigin then r
    else r.publishStateVersion item.key item.producedVersion item.value) r

def publishCommittedMethodPreservingSystemStateDeltaVersions (r : Runtime)
    (items : List SystemStateDelta) : Runtime :=
  items.foldl (fun r item =>
    if item.applyOrigin ≠ methodPreservingVersionedRemoteHomeOrigin ∨ ¬ item.versioned ∨
        item.key = "" then r
    else r.publishStateVersion item.key item.producedVersion item.value) r

/-- `versions[item.Key] = item.ProducedVersion` where that is higher. -/
def raise (versions : GoMap String Nat) (item : SystemStateDelta) : GoMap String Nat :=
  if versions.get item.key < item.producedVersion then versions.put item.key item.producedVersion
  else versions

def markRemoteStateDeltasApplied (r : Runtime) (applied : List SystemStateDelta) : Runtime :=
  let appliedKeys := (applied.map SystemStateDelta.deltaID).filter (· ≠ "")
  { r with
    stateVersionMaterialized := applied.foldl raise r.stateVersionMaterialized
    appliedStateDeltaKeys := appliedKeys.foldl (fun m key => m.put key true) r.appliedStateDeltaKeys
    pendingStateDeltaKeys := appliedKeys.foldl (fun m key => m.delete key) r.pendingStateDeltaKeys
    pendingStateDeltas :=
      r.pendingStateDeltas.filter fun request => stateDeltaApplyKey sha request ∉ appliedKeys }

inductive CommitError where
  | versionChain (message : String)
  | cas (err : CASMismatchError)

def rollbackCommitFailure (r : Runtime) : Runtime :=
  { r with db := r.db.restore sha r.db.values }

/-- The commit of a block that carries queued changes and no transactions. -/
def commitHomeBlock (r : Runtime) (blockHeight : Nat) (items : List SystemStateDelta) :
    Runtime × Option CommitError :=
  let r := r.publishSystemStateDeltaVersions items
  match materializableRemoteStateDeltas true r.stateAccessPartitionID blockHeight
      r.stateVersionMaterialized items with
  | .error message => (r.rollbackCommitFailure sha, some (.versionChain message))
  | .ok remoteDeltas =>
    -- The snapshot for the execution of the block fails where a change finds another base value.
    match State.applyStateKVs sha r.stateAccessPartitionID r.db.values remoteDeltas with
    | .error err => (r.rollbackCommitFailure sha, some (.cas err))
    | .ok _ =>
      let physicalDelta := filterVersionedPhysicalDelta r.stateVersionMaterialized remoteDeltas
      match r.db.applyDeterministicBatch sha physicalDelta with
      | (_, some err) => (r.rollbackCommitFailure sha, some (.cas err))
      | (db, none) =>
        let r := { r with db := db }
        let r := r.markRemoteStateDeltasApplied sha items
        (r.publishCommittedMethodPreservingSystemStateDeltaVersions items, none)

end Runtime
end ChainLab.Home
