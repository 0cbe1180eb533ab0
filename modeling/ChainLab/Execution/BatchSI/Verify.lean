import ChainLab.Execution.BatchSI.Equivalence
import ChainLab.Proposal.Transaction

/-!
# Verified plans

`VerifyBatchSIPlan` rebuilds the candidate block from the accepted and the deferred transactions,
plans it once more and compares digests and orders.  A plan that has passed `ParseBatchSIPlan` and
the verification is the plan of that candidate block, and the block holds its accepted transactions
in order.
-/

namespace ChainLab.Execution.BatchSI

open List Result
open Json (field omitNil)
open Proposal (Primitives Transaction)

abbrev planned (t : Transaction) : SignedTransaction := t.toUnsignedTransaction.executed

/-! ## The digest of a plan -/

def PartitionMode.text : PartitionMode → String
  | .unset => ""
  | .wrbp => "wrbp"
  | .sequential => "sequential"
  | .unsupported name => name

def OrderingMode.text : OrderingMode → String
  | .unset => ""
  | .ofas => "ofas"
  | .dependencyGraph => "dependency_graph"
  | .unsupported name => name

def PriorityMode.text : PriorityMode → String
  | .unset => ""
  | .paper => "paper"
  | .txid => "txid"
  | .unsupported name => name

def Batch.fields (batch : Batch) : List Json.Field :=
  [field "batch_number" .nat batch.batchNumber,
    field "ordered_transaction_ids" (.list .str) batch.orderedTransactionIDs]

def Batch.json (batch : Batch) : Json :=
  .object batch.fields

def OrderEvidence.json (e : OrderEvidence) : Json :=
  .object [field "tx_id" .str e.txID, field "transaction_ordinal" .num e.transactionOrdinal,
    field "batch_number" .nat e.batchNumber,
    field "serialization_position" .nat e.serializationPosition]

def PlanMetrics.json (m : PlanMetrics) : Json :=
  .object [field "transaction_count" .num m.transactionCount,
    field "candidate_transaction_count" .num m.candidateTransactionCount,
    field "accepted_transaction_count" .num m.acceptedTransactionCount,
    field "first_pass_ofas_aborted_transaction_count" .num m.firstPassOFASAbortedTransactionCount,
    field "read_only_transaction_count" .num m.readOnlyTransactionCount,
    field "awrt_address_count" .num m.awrtAddressCount,
    field "awrt_write_reference_count" .num m.awrtWriteReferenceCount,
    field "batch_count" .num m.batchCount, field "maximum_batch_width" .num m.maximumBatchWidth,
    field "write_opportunity_reuse_count" .num m.writeOpportunityReuseCount,
    field "dependency_edge_count" .num m.dependencyEdgeCount,
    field "ofas_aborted_transaction_count" .num m.ofasAbortedTransactionCount,
    field "planning_iteration_count" .num m.planningIterationCount]

def ordinalsJson (ordinals : GoMap String Int) : Json :=
  .obj (ordinals.sortedKeys.map fun txID => (txID, .num (ordinals.get txID)))

def PlanCore.fields (plan : PlanCore Transaction) : List Json.Field :=
  [field "algorithm_id" .str plan.algorithmID, field "version" .str plan.version,
    field "block_height" .nat plan.blockHeight,
    field "partition_mode" .str plan.partitionMode.text,
    field "ordering_mode" .str plan.orderingMode.text,
    field "priority_mode" .str plan.priorityMode.text,
    field "candidate_transaction_ids" (.list .str) plan.candidateTransactionIDs,
    omitNil "deferred_transactions" Transaction.json plan.deferredTransactions,
    field "transaction_ordinals" ordinalsJson plan.transactionOrdinals,
    field "order_evidence" (.list OrderEvidence.json) plan.orderEvidence,
    field "batches" (.list Batch.json) plan.batches,
    field "metrics" PlanMetrics.json plan.metrics, field "plan_digest" .str ""]

def PlanCore.json (plan : PlanCore Transaction) : Json :=
  .object plan.fields

/-- `batchSIPlanDigest`: the digest field itself is empty. -/
def batchSIPlanDigest (p : Primitives) (plan : PlanCore Transaction) : String :=
  p.digest plan.json

lemma Batch.json_injective : Function.Injective Batch.json := by
  intro a b h
  have hfld := Json.object_fields Batch.fields ⟨0, []⟩ (fun _ => rfl) (by decide) h
  simp only [Batch.fields, List.cons.injEq, Json.field_nat,
    Json.field_eq (Json.list_injective Json.str_injective), and_true] at hfld
  cases a
  cases b
  simp_all

lemma batches_eq_of_digest {p : Primitives} (hfree : p.CollisionFree)
    {c c' : PlanCore Transaction} (h : batchSIPlanDigest p c = batchSIPlanDigest p c') :
    c.batches = c'.batches := by
  have hfld : c.fields = c'.fields :=
    Json.object_inj rfl (by simp [PlanCore.fields, field, omitNil]) (hfree.digest_inj h)
  simp only [PlanCore.fields, List.cons.injEq] at hfld
  exact (Json.field_eq (Json.list_injective Batch.json_injective)).1 hfld.2.2.2.2.2.2.2.2.2.2.1

/-! ## Verification -/

/-- The last checks of `ParseBatchSIPlan`, for the compact and the legacy wire format alike. -/
def checkParsed (p : Primitives) (plan : Plan Transaction) : Except String Unit := do
  require (plan.algorithmID = "batch_si_execution_plan_v1" ∧ plan.version = "1.2.0")
    ("unsupported batch-si plan " ++ plan.algorithmID ++ "/" ++ plan.version)
  require (plan.planDigest ≠ "" ∧ plan.planDigest = batchSIPlanDigest p plan.toPlanCore)
    "batch-si plan digest mismatch"

section Verification

variable (p : Primitives)

/-- Add a transaction to `candidateByID`, under an identifier that is not there yet. -/
def addByID (message : String) (byID : GoMap String Transaction) (item : Transaction) :
    Except String (GoMap String Transaction) := do
  require (item.txID ≠ "" ∧ byID.find item.txID = none) message
  return byID.put item.txID item

def addAccepted (byID : GoMap String Transaction) (item : Transaction) :
    Except String (GoMap String Transaction) :=
  addByID "batch-si accepted block has missing or duplicate transaction id" byID item

/-- Deferred transactions are verified again if they carry a signature or a key. -/
def addDeferred (byID : GoMap String Transaction) (item : Transaction) :
    Except String (GoMap String Transaction) := do
  let next ← addByID
    "batch-si deferred evidence has missing, duplicate, or accepted transaction id" byID item
  match if item.signature ≠ "" ∨ item.publicKey ≠ "" then Proposal.verify p item else none with
  | some err =>
    .error ("batch-si deferred transaction verification failed for " ++ item.txID ++ ": " ++ err)
  | none => return next

structure CandidateLoop where
  seenCandidate : List String := []
  seenOrdinals : List Int := []
  txList : List Transaction := []

def addCandidate (byID : GoMap String Transaction) (ordinals : GoMap String Int)
    (acc : CandidateLoop) (txID : String) : Except String CandidateLoop := do
  require (txID ≠ "" ∧ txID ∉ acc.seenCandidate)
    "batch-si candidate evidence has missing or duplicate transaction id"
  match byID.find txID with
  | none =>
    .error ("batch-si candidate transaction " ++ txID ++
      " is missing from accepted/deferred evidence")
  | some item =>
    require (1 ≤ ordinals.get txID ∧ ordinals.get txID ∉ acc.seenOrdinals)
      ("batch-si invalid candidate transaction ordinal for " ++ txID)
    return {
      seenCandidate := txID :: acc.seenCandidate
      seenOrdinals := ordinals.get txID :: acc.seenOrdinals
      txList := acc.txList ++ [item] }

def checkOrder (message : String) (left right : List Transaction) : Except String Unit :=
  (left.zip right).zipIdx.forM fun entry =>
    require (entry.1.1.txID = entry.1.2.txID) (message ++ Text.formatUint entry.2)

def verifyBatchSIPlan (b : PlannedBlock Transaction) (plan : Plan Transaction)
    (rawConfig : Config) :
    Except String Unit := do
  let config := rawConfig.normalized
  require (plan.partitionMode = config.partitionMode ∧ plan.orderingMode = config.orderingMode ∧
    plan.priorityMode = config.priorityMode) "batch-si plan config mismatch"
  require (¬ (plan.candidateTransactionIDs = [] ∧ b.txList ≠ []))
    "batch-si candidate evidence is missing"
  require (plan.transactionOrdinals.len = plan.candidateTransactionIDs.length)
    "batch-si candidate ordinal count mismatch"
  let accepted ← b.txList.foldlM addAccepted ∅
  let byID ← plan.deferredTransactions.foldlM (addDeferred p) accepted
  let candidate ← plan.candidateTransactionIDs.foldlM (addCandidate byID plan.transactionOrdinals)
    {}
  require (byID.len = plan.candidateTransactionIDs.length)
    "batch-si accepted/deferred evidence contains transaction outside candidate order"
  let recomputed ← buildBatchSIPlanWithOrdinals planned (batchSIPlanDigest p)
    { b with txList := candidate.txList } config (some plan.transactionOrdinals)
  require (recomputed.plan.planDigest = plan.planDigest)
    "batch-si fixed candidate plan digest mismatch"
  require (recomputed.ordered.length = b.txList.length)
    "batch-si accepted transaction count mismatch"
  checkOrder "batch-si accepted order mismatch at index " recomputed.ordered b.txList
  require (recomputed.deferred.length = plan.deferredTransactions.length)
    "batch-si deferred transaction count mismatch"
  checkOrder "batch-si deferred transaction evidence mismatch at index " plan.deferredTransactions
    recomputed.deferred

end Verification

/-! ## What verification means -/

section

variable {p : Primitives}

def Named (byID : GoMap String Transaction) : Prop :=
  ∀ txID item, byID.find txID = some item → item.txID = txID

variable {byID next : GoMap String Transaction} {item : Transaction} {message : String}

lemma addByID_eq_ok (h : addByID message byID item = .ok next) :
    byID.find item.txID = none ∧ next = byID.put item.txID item := by
  obtain ⟨hnew, hnext⟩ := require_bind_eq_ok.1 h
  cases hnext
  exact ⟨hnew.2, rfl⟩

lemma addByID_keeps (h : addByID message byID item = .ok next) (hnamed : Named byID) :
    Named next ∧ ∀ txID found, byID.find txID = some found → next.find txID = some found := by
  obtain ⟨hnew, rfl⟩ := addByID_eq_ok h
  constructor
  · intro txID found hfound
    obtain ⟨he, rfl⟩ | hfound := GoMap.of_find_put hfound
    · exact he.symm
    · exact hnamed txID found hfound
  · intro txID found hfound
    rw [GoMap.find_put_ne]
    · exact hfound
    · rintro rfl
      rw [hnew] at hfound
      cases hfound

lemma addDeferred_keeps (h : addDeferred p byID item = .ok next) (hnamed : Named byID) :
    Named next ∧ ∀ txID found, byID.find txID = some found → next.find txID = some found := by
  obtain ⟨added, hadded, hrest⟩ := bind_eq_ok.1 h
  split at hrest
  next => cases hrest
  next =>
    cases hrest
    exact addByID_keeps hadded hnamed

variable {items : List Transaction} {b : PlannedBlock Transaction} {config : Config}

lemma foldlM_addAccepted (hnamed : Named byID) (h : items.foldlM addAccepted byID = .ok next) :
    Named next ∧ (∀ txID found, byID.find txID = some found → next.find txID = some found) ∧
      ∀ item ∈ items, next.find item.txID = some item := by
  induction items generalizing byID with
  | nil =>
    cases h
    exact ⟨hnamed, fun _ _ hfound => hfound, by simp⟩
  | cons item items ih =>
    rw [foldlM_cons, bind_eq_ok] at h
    obtain ⟨mid, hmid, hrest⟩ := h
    obtain ⟨hnamed', hkeep⟩ := addByID_keeps hmid hnamed
    obtain ⟨hnext, hkeep', hitems⟩ := ih hnamed' hrest
    refine ⟨hnext, fun txID found hfound => hkeep' txID found (hkeep txID found hfound), ?_⟩
    refine forall_mem_cons.2 ⟨?_, hitems⟩
    rw [(addByID_eq_ok hmid).2] at hkeep'
    exact hkeep' _ _ (GoMap.find_put_self _ _ _)

lemma foldlM_addDeferred (hnamed : Named byID) (h : items.foldlM (addDeferred p) byID = .ok next) :
    Named next ∧ ∀ txID found, byID.find txID = some found → next.find txID = some found := by
  refine foldlM_induction (P := fun table => Named table ∧
    ∀ txID found, byID.find txID = some found → table.find txID = some found) h
    ⟨hnamed, fun _ _ hfound => hfound⟩ ?_
  rintro table item next - ⟨hnamed, hkeep⟩ hstep
  obtain ⟨hnext, hkeep'⟩ := addDeferred_keeps hstep hnamed
  exact ⟨hnext, fun txID found hfound => hkeep' txID found (hkeep txID found hfound)⟩

lemma foldlM_addCandidate {ordinals : GoMap String Int} {txIDs : List String}
    {candidate : CandidateLoop} (hnamed : Named byID)
    (h : txIDs.foldlM (addCandidate byID ordinals) {} = .ok candidate) :
    ∀ item ∈ candidate.txList, byID.find item.txID = some item := by
  refine foldlM_induction
    (P := fun acc => ∀ item ∈ acc.txList, byID.find item.txID = some item) h (by simp) ?_
  intro acc txID next _ hacc hstep
  obtain ⟨-, hstep⟩ := require_bind_eq_ok.1 hstep
  split at hstep
  next => cases hstep
  next item hfound =>
    obtain ⟨-, hnext⟩ := require_bind_eq_ok.1 hstep
    cases hnext
    refine forall_mem_append.2 ⟨hacc, forall_mem_singleton.2 ?_⟩
    rw [hnamed txID item hfound]
    exact hfound

lemma ids_eq_of_checkOrder {left right : List Transaction} (hlen : left.length = right.length)
    (h : checkOrder message left right = .ok ()) : left.map (·.txID) = right.map (·.txID) := by
  have hpairs : ∀ pair ∈ left.zip right, pair.1.txID = pair.2.txID := by
    intro pair hpair
    rw [← zipIdx_map_fst 0 (left.zip right)] at hpair
    obtain ⟨entry, hent, rfl⟩ := mem_map.1 hpair
    exact require_eq_ok.1 (forM_eq_ok.1 h entry hent)
  calc left.map (·.txID) = (left.zip right).map fun pair => pair.1.txID := by
        rw [← map_fst_zip (Nat.le_of_eq hlen), map_map, map_fst_zip (Nat.le_of_eq hlen)]
        rfl
    _ = (left.zip right).map fun pair => pair.2.txID := map_congr_left hpairs
    _ = right.map (·.txID) := by
        rw [← map_snd_zip (Nat.le_of_eq hlen.symm), map_map, map_snd_zip (Nat.le_of_eq hlen.symm)]
        rfl

lemma mem_of_ordered {digest : PlanCore Transaction → String}
    {ordinals : Option (GoMap String Int)} {result : PlanningResult Transaction}
    (h : buildBatchSIPlanWithOrdinals planned digest b config ordinals = .ok result) :
    ∀ item ∈ result.ordered, item ∈ b.txList := by
  obtain ⟨items, table, hdesc, rfl⟩ := build_eq_ok h
  have hord := wellOrdered_of_described hdesc config.normalized
  rw [ordered_planDescriptors hdesc.distinct hord]
  intro item hitem
  obtain ⟨d, hd, rfl⟩ := mem_map.1 hitem
  obtain ⟨q, hq, hd⟩ := mem_flatMap.1 hd
  exact hdesc.items.mem_iff.1 (mem_map_of_mem (hord.mem q hq d hd))

lemma of_verified (hfree : p.CollisionFree) {plan : Plan Transaction}
    (hparsed : checkParsed p plan = .ok ()) (h : verifyBatchSIPlan p b plan config = .ok ()) :
    ∃ candidates result,
      buildBatchSIPlanWithOrdinals planned (batchSIPlanDigest p) { b with txList := candidates }
        config.normalized (some plan.transactionOrdinals) = .ok result ∧
      plan.batches = result.plan.batches ∧ b.txList = result.ordered := by
  simp only [verifyBatchSIPlan, require_bind_eq_ok] at h
  obtain ⟨-, -, -, h⟩ := h
  obtain ⟨accepted, haccepted, h⟩ := bind_eq_ok.1 h
  obtain ⟨byID, hbyID, h⟩ := bind_eq_ok.1 h
  obtain ⟨candidate, hcand, h⟩ := bind_eq_ok.1 h
  obtain ⟨-, h⟩ := require_bind_eq_ok.1 h
  obtain ⟨result, hres, h⟩ := bind_eq_ok.1 h
  simp only [require_bind_eq_ok] at h
  obtain ⟨hdig, hlen, h⟩ := h
  obtain ⟨_, horder, -⟩ := bind_eq_ok.1 h
  simp only [checkParsed, require_bind_eq_ok, require_eq_ok] at hparsed
  refine ⟨candidate.txList, result, hres, ?_, ?_⟩
  · -- the digests bind the batches
    obtain ⟨items, table, hdesc, hplan⟩ := build_eq_ok hres
    refine batches_eq_of_digest hfree (hparsed.2.2.symm.trans (hdig.symm.trans ?_))
    rw [hplan]
    rfl
  · -- each place of the two lists holds what the table has under one identifier
    obtain ⟨hnamed, -, hblk⟩ := foldlM_addAccepted (fun _ _ hfound => by cases hfound) haccepted
    obtain ⟨hnamed, hkeep⟩ := foldlM_addDeferred hnamed hbyID
    have hfound := foldlM_addCandidate hnamed hcand
    have hids := ids_eq_of_checkOrder hlen horder
    refine map_injective_iff.2 (Option.some_injective _) ?_
    calc b.txList.map some = b.txList.map fun item => byID.find item.txID :=
          map_congr_left fun item hitem => (hkeep _ _ (hblk item hitem)).symm
      _ = result.ordered.map fun item => byID.find item.txID := by
          have := congrArg (List.map byID.find) hids
          simpa only [map_map, Function.comp_def] using this.symm
      _ = result.ordered.map some :=
          map_congr_left fun item hitem => hfound item (mem_of_ordered hres item hitem)

end

end ChainLab.Execution.BatchSI
