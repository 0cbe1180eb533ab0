import ChainLab.Execution.SerialExecutor
import ChainLab.Proposal.Body
import ChainLab.Proposal.Plain

/-!
# The block hash binds what is executed

`block.Hash` covers identifiers and digests only.  A block that passes the checks carries bodies of
those identifiers and payloads of those digests, so two such blocks of one hash differ at most in
the signatures of their transactions and in the marks that no executor reads.
-/

namespace ChainLab.Proposal

open List
open Home (SystemStateDelta)
open Json

/-! ## Checks -/

@[simp] lemma fail_eq_none {condition : Prop} [Decidable condition] {err : String} :
    fail condition err = none ↔ ¬ condition := by
  by_cases h : condition <;> simp [fail, h]

@[simp] lemma firstError_nil : firstError [] = none := rfl

@[simp] lemma firstError_cons {check : Option String} {checks : List (Option String)} :
    firstError (check :: checks) = none ↔ check = none ∧ firstError checks = none := by
  cases check with
  | none => simp [firstError]
  | some err => simp [firstError]

variable {ids seen : List String} {index : Nat} {items : List Transaction} {p : Primitives}
  {strict : Bool} {b : Block} {signature : String}

lemma validateTransactions_cons {id : String} {item : Transaction} :
    validateTransactions p strict index seen (id :: ids) (item :: items) = none ↔
      blank item.txID = false ∧ id = item.txID ∧ item.txID ∉ seen ∧
        (strict = true → verify p item = none) ∧
        validateTransactions p strict (index + 1) (item.txID :: seen) ids items = none := by
  rw [validateTransactions]
  by_cases hblank : blank item.txID = true
  · simp [hblank]
  by_cases hid : id = item.txID
  · by_cases hseen : item.txID ∈ seen
    · simp [hblank, hid, hseen]
    cases strict with
    | false => simp [hblank, hid, hseen]
    | true => cases hverify : verify p item <;> simp [hblank, hid, hseen]
  · simp [hblank, hid]

lemma validateTransactions_iff (hlen : ids.length = items.length) :
    validateTransactions p strict index seen ids items = none ↔
      ids = transactionIDs items ∧ ids.Nodup ∧ (∀ id ∈ ids, blank id = false ∧ id ∉ seen) ∧
        (strict = true → ∀ t ∈ items, verify p t = none) := by
  induction items generalizing index seen ids with
  | nil =>
    have hnil : ids = [] := length_eq_zero_iff.1 hlen
    subst hnil
    simp [validateTransactions, transactionIDs]
  | cons item items ih =>
    cases ids with
    | nil => cases hlen
    | cons id ids =>
      have hids : transactionIDs (item :: items) = item.txID :: transactionIDs items := rfl
      rw [validateTransactions_cons, hids]
      -- An identifier of the rest is new because the first one counts as seen there.
      grind

/-- The structure of a block that `validateConsensusBlockStructuralV1` lets through. -/
structure WellFormed (p : Primitives) (strict : Bool) (b : Block) : Prop where
  hash_ne : b.blockHash ≠ ""
  hash_eq : hash p b.toHeader = b.blockHash
  root_eq : txRoot p b.txIDs = b.txRoot
  ids_eq : b.txIDs = transactionIDs b.txList
  nodup : b.txIDs.Nodup
  nonblank : ∀ id ∈ b.txIDs, blank id = false
  verified : strict = true → ∀ t ∈ b.txList, verify p t = none

lemma validateConsensusBlockStructuralV1_iff :
    validateConsensusBlockStructuralV1 p strict b = none ↔ WellFormed p strict b := by
  unfold validateConsensusBlockStructuralV1
  constructor
  · intro h
    split at h
    · cases h
    split at h
    · cases h
    split at h
    · cases h
    split at h
    · cases h
    rename_i hne hhash hlen hroot
    obtain ⟨hids, hnd, hblank, hver⟩ := (validateTransactions_iff (not_not.1 hlen)).1 h
    exact ⟨hne, not_not.1 hhash, not_not.1 hroot, hids, hnd, fun id hid => (hblank id hid).1, hver⟩
  · intro h
    have hlen : b.txIDs.length = b.txList.length := by
      rw [h.ids_eq, transactionIDs, length_map]
    simp only [h.hash_ne, h.hash_eq, h.root_eq, hlen, ne_eq, not_true_eq_false, if_false]
    refine (validateTransactions_iff hlen).2 ⟨h.ids_eq, h.nodup, ?_, h.verified⟩
    exact fun id hid => ⟨h.nonblank id hid, not_mem_nil⟩

lemma assignHash_wellFormed (hhex : p.Hexadecimal) (strict : Bool)
    (hids : b.txIDs = transactionIDs b.txList) (hnd : b.txIDs.Nodup)
    (hver : ∀ t ∈ b.txList, verify p t = none) : WellFormed p strict (assignHash p b) where
  hash_ne := hhex.nonempty _
  hash_eq := rfl
  root_eq := rfl
  ids_eq := hids
  nodup := hnd
  nonblank id hid := by
    have hmem : id ∈ transactionIDs b.txList := hids ▸ hid
    obtain ⟨t, ht, rfl⟩ := mem_map.1 hmem
    rw [txID_of_verify (hver t ht)]
    exact hhex.blank_sha256 _
  verified _ := hver

/-! ## What the hash covers -/

lemma SystemStateDelta.json_injective : Function.Injective SystemStateDelta.json := by
  intro a b h
  have hfld := object_fields SystemStateDelta.fields
    ⟨"", "", "", "", [], "", 0, "", "", "", "", false, 0, "", "", "", 0, 0, 0, 0, false, ""⟩
    (fun _ => rfl) (by decide) h
  simp only [SystemStateDelta.fields, List.cons.injEq, field_str, field_nat,
    field_num, omitZero_num, omitZero_nat, omitZero_str, omitZero_bool,
    omitNil_eq str_injective, and_true] at hfld
  cases a
  cases b
  simp_all

lemma ExecutionPlanEnvelope.core_eq {a b : ExecutionPlanEnvelope}
    (h : object a.core = .object b.core) :
    a.algorithmID = b.algorithmID ∧ a.payloadDigest = b.payloadDigest ∧
      a.planDigest = b.planDigest := by
  have hfld :=
    object_fields ExecutionPlanEnvelope.core ⟨"", "", "", ""⟩ (fun _ => rfl) (by decide) h
  simpa [ExecutionPlanEnvelope.core] using hfld

lemma ProposalEvidenceEnvelope.core_eq {a b : ProposalEvidenceEnvelope}
    (h : object a.core = .object b.core) :
    a.algorithmID = b.algorithmID ∧ a.payloadDigest = b.payloadDigest := by
  have hfld := object_fields ProposalEvidenceEnvelope.core ⟨"", "", ""⟩ (fun _ => rfl) (by decide) h
  simpa [ProposalEvidenceEnvelope.core] using hfld

structure SameCore (a b : Header) : Prop where
  shardID : a.shardID = b.shardID
  height : a.height = b.height
  previousHash : a.previousHash = b.previousHash
  proposerID : a.proposerID = b.proposerID
  timestamp : a.timestamp = b.timestamp
  txIDs : a.txIDs = b.txIDs
  txRoot : a.txRoot = b.txRoot
  stateRootBefore : a.stateRootBefore = b.stateRootBefore
  stateRootAfter : a.stateRootAfter = b.stateRootAfter
  receiptRoot : a.receiptRoot = b.receiptRoot
  systemStateDeltas : a.systemStateDeltas = b.systemStateDeltas
  executionPlan : a.executionPlan.map (fun e => Json.object e.core) =
    b.executionPlan.map fun e => Json.object e.core
  proposalEvidence : a.proposalEvidence.map (fun e => Json.object e.core) =
    b.proposalEvidence.map fun e => Json.object e.core

lemma sameCore_of_hash (hfree : p.CollisionFree) {a b : Header} (h : hash p a = hash p b) :
    SameCore a b := by
  have hcore := object_fields Header.core {} (fun _ => rfl) (by decide) (hfree.digest_inj h)
  simp only [Header.core, List.cons.injEq, field_str, field_nat, field_num,
    field_eq (list_injective str_injective),
    omitNil_eq SystemStateDelta.json_injective, pointer, Prod.mk.injEq, true_and,
    and_true] at hcore
  obtain ⟨h1, h2, h3, h4, h5, h6, h7, h8, h9, h10, h11, h12, h13⟩ := hcore
  exact ⟨h1, h2, h3, h4, h5, h6, h7, h8, h9, h10, h11, h12, h13⟩

/-! ## What acceptance adds -/

namespace Runtime

variable {p : Primitives} {r : Runtime} {b : Block}

lemma wellFormed_of_accepts (h : r.Accepts p b) : WellFormed p r.pbftAuthenticationRequired b := by
  have hbody := h.1
  rw [validateConsensusBlockBody, Option.or_eq_none_iff] at hbody
  exact validateConsensusBlockStructuralV1_iff.1 hbody.1

lemma verifyExecutionPlanEnvelope_iff : (r.verifyExecutionPlanEnvelope p b).2 = none ↔
      r.verifyProposalEvidenceEnvelope p b = none ∧ r.checkExecutionPlan p b.unsigned = none := by
  rw [verifyExecutionPlanEnvelope]
  split
  · rename_i err herr
    rw [← Option.or_eq_none_iff, herr]
  · rename_i hnone
    rw [← Option.or_eq_none_iff, hnone]

lemma planDigest_of_accepts (h : r.Accepts p b) {plan : ExecutionPlanEnvelope}
    (hplan : b.executionPlan = some plan) : p.sha256 plan.payload = plan.payloadDigest := by
  have hcheck := (verifyExecutionPlanEnvelope_iff.1 h.2).2
  have hheader : b.unsigned.executionPlan = some plan := hplan
  simp only [checkExecutionPlan, hheader, firstError_cons, verifyPlan, fail_eq_none] at hcheck
  exact not_not.1 hcheck.1.2.1

lemma evidenceDigest_of_accepts (h : r.Accepts p b) {envelope : ProposalEvidenceEnvelope}
    (henv : b.proposalEvidence = some envelope) :
    p.sha256 envelope.payload = envelope.payloadDigest := by
  have hcheck := (verifyExecutionPlanEnvelope_iff.1 h.2).1
  rw [verifyProposalEvidenceEnvelope] at hcheck
  split at hcheck
  · simp only [verifyPorygonEvidence, henv, firstError_cons, fail_eq_none] at hcheck
    exact not_not.1 hcheck.2.2.1
  · simp only [henv, checkEvidence, firstError_cons, fail_eq_none] at hcheck
    exact not_not.1 hcheck.2.1

end Runtime

/-! ## Binding -/

/-- A block as executors see it: without signatures, and without the marks that the hash leaves out,
which only the proposer and the block store write. -/
def Block.consumed (b : Block) : UnsignedBlock :=
  { b.unsigned with proposerDigest := "", stateCommit := false, crossShardProtocol := false }

/-- The part of it that the serial executor is given. -/
def UnsignedBlock.executed (p : Primitives) (b : UnsignedBlock) : ChainLab.Block where
  shardID := b.shardID
  height := b.height
  previousHash := b.previousHash
  proposerID := b.proposerID
  timestamp := b.timestamp
  txIDs := b.txIDs
  txRoot := b.txRoot
  stateRootBefore := b.stateRootBefore
  stateRootAfter := b.stateRootAfter
  receiptRoot := b.receiptRoot
  extension := p.json (.object (b.core.drop 10))
  blockHash := b.blockHash
  txList := b.txList.map UnsignedTransaction.executed

section Binding

variable {p : Primitives} {r r' : Runtime} {b b' : Block}

lemma unsigned_eq_of_txIDs (hfree : p.CollisionFree) {items items' : List Transaction}
    (h : ∀ t ∈ items, verify p t = none) (h' : ∀ t ∈ items', verify p t = none)
    (hids : transactionIDs items = transactionIDs items') :
    items.map Transaction.toUnsignedTransaction = items'.map Transaction.toUnsignedTransaction := by
  induction items generalizing items' with
  | nil =>
    have hnil : items' = [] := map_eq_nil_iff.1 hids.symm
    rw [hnil]
  | cons t items ih =>
    cases items' with
    | nil => cases hids
    | cons t' items' =>
      obtain ⟨hid, hids⟩ := List.cons.inj hids
      have hhead := unsigned_eq_of_txID hfree (h t mem_cons_self) (h' t' mem_cons_self) hid
      have htail := ih (fun s hs => h s (mem_cons_of_mem _ hs))
        (fun s hs => h' s (mem_cons_of_mem _ hs)) hids
      rw [map_cons, map_cons, hhead, htail]

lemma eq_of_map_eq {α β : Type} {f : α → β} {o o' : Option α} (hmap : o.map f = o'.map f)
    (h : ∀ a a', o = some a → o' = some a' → f a = f a' → a = a') : o = o' := by
  cases o with
  | none => exact (Option.map_eq_none_iff.1 hmap.symm).symm
  | some a =>
    obtain ⟨a', ha', heq⟩ := Option.map_eq_some_iff.1 hmap.symm
    rw [ha', h a a' rfl ha' heq.symm]

lemma executionPlan_eq (hfree : p.CollisionFree) (h : r.Accepts p b) (h' : r'.Accepts p b')
    (hcore : SameCore b.toHeader b'.toHeader) : b.executionPlan = b'.executionPlan := by
  refine eq_of_map_eq hcore.executionPlan fun plan plan' hplan hplan' hmap => ?_
  obtain ⟨halg, hpay, hdig⟩ := ExecutionPlanEnvelope.core_eq hmap
  have htext : plan.payload = plan'.payload := hfree.sha256_inj <| by
    rw [Runtime.planDigest_of_accepts h hplan, Runtime.planDigest_of_accepts h' hplan', hpay]
  cases plan
  cases plan'
  simp_all

lemma proposalEvidence_eq (hfree : p.CollisionFree) (h : r.Accepts p b) (h' : r'.Accepts p b')
    (hcore : SameCore b.toHeader b'.toHeader) : b.proposalEvidence = b'.proposalEvidence := by
  refine eq_of_map_eq hcore.proposalEvidence fun e e' hevid hevid' hmap => ?_
  obtain ⟨halg, hpay⟩ := ProposalEvidenceEnvelope.core_eq hmap
  have htext : e.payload = e'.payload := hfree.sha256_inj <| by
    rw [Runtime.evidenceDigest_of_accepts h hevid, Runtime.evidenceDigest_of_accepts h' hevid',
      hpay]
  cases e
  cases e'
  simp_all

lemma consumed_eq (hfree : p.CollisionFree) (hauth : r.pbftAuthenticationRequired = true)
    (hauth' : r'.pbftAuthenticationRequired = true) (h : r.Accepts p b) (h' : r'.Accepts p b')
    (hhash : b.blockHash = b'.blockHash) : b.consumed = b'.consumed := by
  have hform := Runtime.wellFormed_of_accepts h
  have hform' := Runtime.wellFormed_of_accepts h'
  have hcore : SameCore b.toHeader b'.toHeader := sameCore_of_hash hfree <| by
    rw [hform.hash_eq, hform'.hash_eq, hhash]
  have hplan := executionPlan_eq hfree h h' hcore
  have hevid := proposalEvidence_eq hfree h h' hcore
  have hbodies := unsigned_eq_of_txIDs hfree (hform.verified hauth) (hform'.verified hauth')
    (by rw [← hform.ids_eq, ← hform'.ids_eq, hcore.txIDs])
  obtain ⟨h1, h2, h3, h4, h5, h6, h7, h8, h9, h10, h11, -, -⟩ := hcore
  obtain ⟨header, items⟩ := b
  obtain ⟨header', items'⟩ := b'
  cases header
  cases header'
  simp only at h1 h2 h3 h4 h5 h6 h7 h8 h9 h10 h11 hplan hevid hbodies hhash
  simp [Block.consumed, Block.unsigned, *]

end Binding

/-- Two blocks that pass the checks of a validator and have the same hash hold the same transactions
but for their signatures, the same system deltas, and the same payloads of plan and evidence.  They
agree in all that an executor of plans is given, and the serial executor treats them alike. -/
theorem block_hash_binds_execution {p : Primitives} (hfree : p.CollisionFree) {r r' : Runtime}
    (hauth : r.pbftAuthenticationRequired = true) (hauth' : r'.pbftAuthenticationRequired = true)
    {b b' : Block} (h : r.Accepts p b) (h' : r'.Accepts p b')
    (hhash : b.blockHash = b'.blockHash) :
    b.txList.map Transaction.toUnsignedTransaction =
      b'.txList.map Transaction.toUnsignedTransaction ∧ b.systemStateDeltas = b'.systemStateDeltas ∧
      b.executionPlan = b'.executionPlan ∧ b.proposalEvidence = b'.proposalEvidence ∧
      b.consumed = b'.consumed ∧ ∀ digests root defaultInitialBalance base,
        Execution.serialExecuteBlock digests root defaultInitialBalance (b.consumed.executed p)
          base =
          Execution.serialExecuteBlock digests root defaultInitialBalance (b'.consumed.executed p)
            base := by
  have heq := consumed_eq hfree hauth hauth' h h' hhash
  refine ⟨congrArg UnsignedBlock.txList heq, congrArg (fun u => u.systemStateDeltas) heq,
    congrArg (fun u => u.executionPlan) heq, congrArg (fun u => u.proposalEvidence) heq, heq, ?_⟩
  intro digests root defaultInitialBalance base
  rw [heq]

def plainCore : CoreFields :=
  { sender := "0x0", receiver := "bob", value := 1, stateKeys := ["k"], publicKey := "key" }

def plainID : String :=
  computeID plainPrimitives plainCore

def plainTransaction (signature : String) : Transaction :=
  { plainCore with txID := plainID, signature := signature }

lemma verify_plainTransaction (hblank : blank signature = false)
    (hkey : String.ofList (signature.toList.filter fun c => c ≠ '\r' ∧ c ≠ '\n') ≠ "key") :
    verify plainPrimitives (plainTransaction signature) = none := by
  have hbasic : validateBasic plainPrimitives (plainTransaction signature) = none := by
    have hsender : blank "0x0" = false := by decide
    have hrecv : blank "bob" = false := by decide
    have hst : blank "k" = false := by decide
    have hpublic : blank "key" = false := by decide
    simp [validateBasic, plainTransaction, plainCore, plainID, validateExecutionRouting, hsender,
      hrecv, hst, hpublic, hblank]
  have hbound : isBoundSender plainPrimitives "0x0" "key" = true := by decide
  have hpublic : plainPrimitives.decodeString "key" = some (List.replicate 32 0) := by decide
  have hsig : plainPrimitives.decodeString signature = some (List.replicate 64 0) := by
    simp only [Primitives.decodeString, plainPrimitives, hkey, if_false]
  exact verify_iff.2 ⟨hbasic, hbound, _, _, hpublic, hsig, rfl, rfl, rfl⟩

def plainRuntime : Runtime where
  plugins :=
    { blockProducer := none
      schedulerID := "fifo"
      planner := none
      batchExecutionPlanAlgorithmID := ""
      verifyMetaTrackExecutionPlanPayload := fun _ => none
      partitionInvariantConsensusV658 := false
      carries := fun _ _ => false
      frontier := fun _ _ => none
      ariaWireVersion := fun _ => .ok ""
      ariaEvidence := fun _ => .error "no evidence"
      ariaWire := fun _ => .error "no evidence"
      groundhogEvidence := fun _ => .error "no evidence"
      porygonFullBodyDigest := fun _ => .error "no evidence"
      porygonEvidence := fun _ => none }
  pbftAuthenticationRequired := true
  verifiedExecutionPlans := ∅

/-- A runtime with Groundhog's producer and a scheduler that plans. -/
def planningRuntime : Runtime :=
  { plainRuntime with
    plugins := { plainRuntime.plugins with
      blockProducer := some .groundhog
      planner := some fun _ => none
      groundhogEvidence := fun _ => .ok ⟨"", 0, [plainID]⟩ } }

def plainDelta : SystemStateDelta :=
  ⟨"d", "k", "1", "", [], "", 0, "", "", "", "", false, 0, "", "", "", 0, 0, 0, 0, false, ""⟩

def plainProposal (signature : String) : Block :=
  assignHash plainPrimitives
    { txIDs := [plainID]
      txList := [plainTransaction signature]
      systemStateDeltas := [plainDelta]
      executionPlan := some ⟨"plan", plainPrimitives.sha256 "p", "digest", "p"⟩
      proposalEvidence :=
        some ⟨groundhogCandidateSelectionEvidenceID, plainPrimitives.sha256 "e", "e"⟩ }

lemma planningRuntime_accepts (hblank : blank signature = false)
    (hkey : String.ofList (signature.toList.filter fun c => c ≠ '\r' ∧ c ≠ '\n') ≠ "key") :
    planningRuntime.Accepts plainPrimitives (plainProposal signature) := by
  have hform : WellFormed plainPrimitives true (plainProposal signature) := by
    refine assignHash_wellFormed plainPrimitives_hexadecimal true rfl (nodup_singleton _) ?_
    intro t ht
    rw [mem_singleton.1 ht]
    exact verify_plainTransaction hblank hkey
  constructor
  · rw [Runtime.validateConsensusBlockBody, Option.or_eq_none_iff]
    exact ⟨validateConsensusBlockStructuralV1_iff.2 hform, rfl⟩
  · have hhash : (plainProposal signature).unsigned.blockHash =
        hash plainPrimitives (plainProposal signature).unsigned.toHeader := hform.hash_eq.symm
    have hplan : (plainProposal signature).unsigned.executionPlan =
        some ⟨"plan", plainPrimitives.sha256 "p", "digest", "p"⟩ := rfl
    have hnonempty := plainPrimitives_hexadecimal.nonempty
    rw [Runtime.verifyExecutionPlanEnvelope_iff]
    constructor
    · simp [Runtime.verifyProposalEvidenceEnvelope, planningRuntime, Runtime.checkEvidence,
        hnonempty,
        Runtime.expectedAlgorithm, Runtime.checkGroundhogEvidence, plainProposal, assignHash,
        groundhogCandidateSelectionEvidenceID, ariaCandidateSelectionEvidenceID]
    · have hverify : planningRuntime.verifyPlan plainPrimitives (plainProposal signature).unsigned
          ⟨"plan", plainPrimitives.sha256 "p", "digest", "p"⟩ = none := by
        simp only [Runtime.verifyPlan, firstError_cons, fail_eq_none, planningRuntime]
        exact ⟨by simp [hnonempty], by simp, ite_self none, rfl⟩
      simp [Runtime.checkExecutionPlan, hplan, hhash, hverify]

/-- Two accepted blocks, with a plan, evidence and a delta, that carry differently signed bodies of
one transaction. -/
theorem block_hash_binds_resigned : (plainProposal "a").txList ≠ (plainProposal "b").txList ∧
      (plainProposal "a").consumed = (plainProposal "b").consumed := by
  constructor
  · intro h
    have hsignature := congrArg (List.map Transaction.signature) h
    revert hsignature
    decide
  · exact (block_hash_binds_execution plainPrimitives_collisionFree (by rfl) (by rfl)
      (planningRuntime_accepts (by decide) (by decide))
      (planningRuntime_accepts (by decide) (by decide)) rfl).2.2.2.2.1

end ChainLab.Proposal
