import ChainLab.Execution.BatchSI.Verify
import ChainLab.Proposal.Plain

/-!
# Executing verified blocks

The executor refuses a block as soon as one of its transactions writes a key that it does not
declare, and verification does not look at what a transaction will touch.  A verified block
executes, and every access is a declared one, exactly if each transaction is covered in the state in
which its batch starts.
-/

namespace ChainLab.Execution.BatchSI

open List Result
open Proposal (Primitives Transaction)

section Outcome

variable {T : Type} {body : T → SignedTransaction} {digests : Digests}
  {root : (String → Option String) → String} {e : BatchSIExecutor} {b : PlannedBlock T}

/-! ## Outcomes of batches -/

/-- The results of the batches, each over the state in which its batch starts. -/
def resultsOf (body : T → SignedTransaction) (digests : Digests) (e : BatchSIExecutor)
    (b : PlannedBlock T) (starts : List (BatchStart T)) : List (TxExecutionResult T) :=
  starts.flatMap fun start =>
    start.transactions.map (executeTransaction body digests e b start.snapshot)

/-- Every written key is declared as one. -/
abbrev Valid (body : T → SignedTransaction) (b : PlannedBlock T) (r : TxExecutionResult T) : Prop :=
  validateDeclaredWrites (body r.item) r.delta.writeSet b.shardID = true

/-- The delta of a result, under the state root that materialization has put into its receipt. -/
def Reports (r : TxExecutionResult T) (delta : TxDelta) : Prop :=
  ∃ text, delta = { r.delta with receipt := { r.delta.receipt with stateRootAfterTx := text } }

variable {results : List (TxExecutionResult T)} {working : Snapshot} {deltas : List TxDelta}
  {batches : List Batch} {entries : List (List (T × Nat))}
  {out : Except ExecError (List TxDelta × Snapshot)} {starts : List (BatchStart T)}

/-- Materialization fails only at a write that is not declared. -/
lemma not_valid_of_error {err : ExecError}
    (h : materialize body root b working results = .error err) :
    ∃ r ∈ results, ¬ Valid body b r := by
  induction results generalizing working err with
  | nil => cases h
  | cons r results ih =>
    by_cases hval : Valid body b r
    · -- the failure is one of the later results
      simp only [materialize, applyResult, if_pos hval, ok_bind] at h
      cases hrest : materialize body root b (Serial.applyWrites (batchSIQualifiedKey b.shardID)
          r.delta.writeSet working) results with
      | error err' =>
        obtain ⟨other, hother, hnot⟩ := ih hrest
        exact ⟨other, mem_cons_of_mem r hother, hnot⟩
      | ok run =>
        rw [hrest] at h
        cases h
    · exact ⟨r, mem_cons_self, hval⟩

/-- Materialized results write what they declare, and are reported in order. -/
lemma of_materialize {next : Snapshot}
    (h : materialize body root b working results = .ok (deltas, next)) :
    (∀ r ∈ results, Valid body b r) ∧ List.Forall₂ Reports results deltas := by
  induction results generalizing working deltas with
  | nil =>
    cases h
    exact ⟨by simp, .nil⟩
  | cons r results ih =>
    obtain ⟨applied, happ, h⟩ := bind_eq_ok.1 h
    obtain ⟨run, hrun, h⟩ := bind_eq_ok.1 h
    cases h
    unfold applyResult at happ
    split at happ
    next hval =>
      cases happ
      obtain ⟨hrest, hrep⟩ := ih hrun
      exact ⟨forall_mem_cons.2 ⟨hval, hrest⟩, .cons ⟨_, rfl⟩ hrep⟩
    next => cases happ

section

variable (h : Executes body digests root e b working batches starts out)

include h

section

variable (hfound : batches.map (batchTransactions body b) = entries.map .ok)

include hfound

/-- Batches of known transactions that write what they declare execute. -/
lemma Executes.exists_ok
    (hval : ∀ r ∈ resultsOf body digests e b starts, Valid body b r) : ∃ run, out = .ok run := by
  induction h generalizing entries with
  | done => exact ⟨_, rfl⟩
  | unknown herr =>
    cases entries with
    | nil => simp at hfound
    | cons l entries => simp [herr] at hfound
  | undeclared htxs hcomp hmat =>
    rw [(WorkerPool.completes_iff (workers_pos e)).1 hcomp] at hmat
    obtain ⟨r, hr, hnot⟩ := not_valid_of_error hmat
    exact absurd (hval r (mem_flatMap.2 ⟨_, mem_cons_self, hr⟩)) hnot
  | next htxs hcomp hmat hrest ih =>
    cases entries with
    | nil => simp at hfound
    | cons l entries =>
      obtain ⟨run, rfl⟩ := ih (List.cons.inj hfound).2 fun r hr =>
        hval r (mem_append_right _ hr)
      exact ⟨_, rfl⟩

/-- What an execution without an error has gone through. -/
lemma Executes.of_ok {final : Snapshot} (hout : out = .ok (deltas, final)) :
    starts.map BatchStart.transactions = entries ∧
      (∀ r ∈ resultsOf body digests e b starts, Valid body b r) ∧
      List.Forall₂ Reports (resultsOf body digests e b starts) deltas := by
  induction h generalizing entries deltas with
  | done =>
    cases hout
    have hnil : entries = [] := by simpa using hfound.symm
    exact ⟨hnil.symm, by simp [resultsOf], .nil⟩
  | unknown herr | undeclared htxs hcomp hmat => cases hout
  | @next working next batch batches transactions results deltas' starts rest htxs hcomp hmat
    hrest ih =>
      obtain ⟨run, hrun, he⟩ := map_eq_ok.1 hout
      cases he
      cases entries with
      | nil => simp at hfound
      | cons l entries =>
        obtain ⟨hhead, htail⟩ := List.cons.inj hfound
        obtain ⟨hstarts, hval, hrep⟩ := ih htail hrun
        rw [(WorkerPool.completes_iff (workers_pos e)).1 hcomp] at hmat
        obtain ⟨hval', hrep'⟩ := of_materialize hmat
        refine ⟨?_, ?_, ?_⟩
        · rw [map_cons, hstarts]
          exact congrArg (· :: entries) (Except.ok.inj (htxs.symm.trans hhead))
        · intro r hr
          rcases mem_append.1 hr with hr | hr
          · exact hval' r hr
          · exact hval r hr
        · exact rel_append hrep' hrep

end

end

/-- Every batch starts with transactions of the block. -/
lemma Executes.mem_txList (h : Executes body digests root e b working batches starts out) :
    ∀ start ∈ starts, ∀ entry ∈ start.transactions, entry.1 ∈ b.txList := by
  have hbyID : ∀ id entry, (b.byID body).find id = some entry → entry ∈ b.txList.zipIdx := by
    refine foldlRecOn (motive := fun table : GoMap String (T × Nat) =>
      ∀ id entry, table.find id = some entry → entry ∈ b.txList.zipIdx) _ _ (by simp) ?_
    intro table htable entry hentry id found hfound
    obtain ⟨-, rfl⟩ | hfound := GoMap.of_find_put hfound
    · exact hentry
    · exact htable id found hfound
  have hfound : ∀ {batch transactions}, batchTransactions body b batch = .ok transactions →
      ∀ entry ∈ transactions, entry.1 ∈ b.txList := by
    intro batch transactions htxs entry hentry
    obtain ⟨id, -, hid⟩ := exists_of_mem_mapM htxs hentry
    split at hid
    · next found hfind =>
      cases hid
      exact fst_mem_of_mem_zipIdx (hbyID id _ hfind)
    · cases hid
  induction h with
  | done | unknown => simp
  | undeclared htxs => exact forall_mem_singleton.2 (hfound htxs)
  | next htxs _ _ _ ih => exact forall_mem_cons.2 ⟨hfound htxs, ih⟩

/-- An execution stops with the error of its first batch. -/
lemma Executes.error_of_materialize {batch : Batch} {transactions : List (T × Nat)}
    {err : ExecError} (h : Executes body digests root e b working (batch :: batches) starts out)
    (htxs : batchTransactions body b batch = .ok transactions)
    (hmat : materialize body root b working
      (transactions.map (executeTransaction body digests e b working)) = .error err) :
    out = .error err := by
  cases h with
  | unknown herr =>
    rw [htxs] at herr
    cases herr
  | undeclared htxs' hcomp hmat' =>
    cases htxs.symm.trans htxs'
    rw [(WorkerPool.completes_iff (workers_pos e)).1 hcomp, hmat] at hmat'
    exact congrArg Except.error (Except.error.inj hmat'.symm)
  | next htxs' hcomp hmat' hrest =>
    cases htxs.symm.trans htxs'
    rw [(WorkerPool.completes_iff (workers_pos e)).1 hcomp, hmat] at hmat'
    cases hmat'

/-! ## Accesses -/

/-- The transaction has a receipt of its own, and it has touched only what it declares. -/
def Received (body : T → SignedTransaction) (b : PlannedBlock T) (item : T) (delta : TxDelta) :
    Prop :=
  delta.receipt.txID = (body item).txID ∧
    (∀ r ∈ delta.readSet, Declares (body item) b.shardID r.key) ∧
    ∀ key v, delta.writeSet.find key = some v → Declares (body item) b.shardID key

/-- The transaction, run on the snapshot, touches only what it declares. -/
abbrev CoveredIn (body : T → SignedTransaction) (e : BatchSIExecutor) (b : PlannedBlock T)
    (snapshot : Snapshot) (item : T) : Prop :=
  Covered e.defaultInitialBalance b.shardID
    (Serial.view (batchSIQualifiedKey b.shardID) snapshot) (body item)

variable {snapshot : Snapshot}

lemma within_txRun {item : T} :
    (txRun body digests e b snapshot item).2.Within (Declares (body item) b.shardID)
      (DeclaresWrite (body item) b.shardID) ↔ CoveredIn body e b snapshot item := by
  have h : (executeTx digests e.defaultInitialBalance b.shardID (body item)).Within
      (Serial.view (batchSIQualifiedKey b.shardID) snapshot) (Declares (body item) b.shardID)
      (DeclaresWrite (body item) b.shardID) ∅ (fun _ _ => True) ↔ _ :=
    Prog.within_iff Trace.Within.empty
  rw [and_true] at h
  exact h.symm.trans within_executeTx

lemma valid_iff {r : TxExecutionResult T} : Valid body b r ↔
    ∀ key v, r.delta.writeSet.find key = some v → DeclaresWrite (body r.item) b.shardID key := by
  simp only [Valid, validateDeclaredWrites, all_eq_true, decide_eq_true_eq]
  constructor
  · exact fun h key v hfind => h key (GoMap.mem_sortedKeys.2 ⟨v, hfind⟩)
  · intro h key hkey
    obtain ⟨v, hv⟩ := GoMap.mem_sortedKeys.1 hkey
    exact h key v hv

/-- Coverage in terms of the result of the transaction. -/
lemma coveredIn_iff {entry : T × Nat} :
    (Valid body b (executeTransaction body digests e b snapshot entry) ∧
      ∀ r ∈ (executeTransaction body digests e b snapshot entry).delta.readSet,
        Declares (body entry.1) b.shardID r.key) ↔ CoveredIn body e b snapshot entry.1 := by
  rw [valid_iff, and_comm]
  refine Iff.trans (and_congr ⟨fun h r hr => ?_, fun h r hr => ?_⟩ Iff.rfl)
    (@within_txRun _ _ digests _ _ _ _)
  · exact h (batchSIObserve r) (mem_map_of_mem hr)
  · obtain ⟨record, hrec, rfl⟩ := mem_map.1 hr
    exact h record hrec

/-- Valid results are received if their reads are declared as well. -/
lemma received_iff (h : List.Forall₂ Reports results deltas)
    (hnames : ∀ r ∈ results, r.delta.receipt.txID = (body r.item).txID)
    (hval : ∀ r ∈ results, Valid body b r) :
    List.Forall₂ (Received body b) (results.map TxExecutionResult.item) deltas ↔
      ∀ r ∈ results, ∀ o ∈ r.delta.readSet, Declares (body r.item) b.shardID o.key := by
  induction h with
  | nil => simp
  | @cons r delta results deltas hrep hrest ih =>
    obtain ⟨text, rfl⟩ := hrep
    obtain ⟨hname, hnames⟩ := forall_mem_cons.1 hnames
    obtain ⟨hr, hval⟩ := forall_mem_cons.1 hval
    rw [map_cons, forall₂_cons, forall_mem_cons, ih hnames hval]
    refine and_congr_left fun _ => ⟨fun hreceived => hreceived.2.1, fun hreads => ?_⟩
    exact ⟨hname, hreads, fun key v hfind => (valid_iff.1 hr key v hfind).declares⟩

/-- The statement for batches that list the transactions of the block. -/
lemma executes_received_iff (h : Executes body digests root e b working batches starts out)
    (hfound : batches.map (batchTransactions body b) = entries.map .ok)
    (hall : entries.flatten = b.txList.zipIdx) :
    (∃ deltas final, out = .ok (deltas, final) ∧ List.Forall₂ (Received body b) b.txList deltas) ↔
      ∀ start ∈ starts, ∀ entry ∈ start.transactions,
        CoveredIn body e b start.snapshot entry.1 := by
  have hnames : ∀ r ∈ resultsOf body digests e b starts,
      r.delta.receipt.txID = (body r.item).txID := by
    intro r hr
    obtain ⟨start, -, hr⟩ := mem_flatMap.1 hr
    obtain ⟨entry, -, rfl⟩ := mem_map.1 hr
    rfl
  -- the results of an execution without an error are those of the transactions of the block
  have hitems : starts.map BatchStart.transactions = entries →
      b.txList = (resultsOf body digests e b starts).map TxExecutionResult.item := by
    rintro rfl
    rw [← zipIdx_map_fst 0 b.txList, ← hall, resultsOf, map_flatten, flatMap_def]
    simp [Function.comp_def, executeTransaction]
  constructor
  · rintro ⟨deltas, final, rfl, hreceived⟩ start hstart entry hent
    obtain ⟨hstarts, hval, hrep⟩ := h.of_ok hfound rfl
    rw [hitems hstarts, received_iff hrep hnames hval] at hreceived
    have hmem : executeTransaction body digests e b start.snapshot entry ∈
        resultsOf body digests e b starts :=
      mem_flatMap.2 ⟨start, hstart, mem_map_of_mem hent⟩
    exact coveredIn_iff.1 ⟨hval _ hmem, hreceived _ hmem⟩
  · intro hcov
    have hres : ∀ r ∈ resultsOf body digests e b starts, Valid body b r ∧
        ∀ o ∈ r.delta.readSet, Declares (body r.item) b.shardID o.key := by
      intro r hr
      obtain ⟨start, hstart, hr⟩ := mem_flatMap.1 hr
      obtain ⟨entry, hent, rfl⟩ := mem_map.1 hr
      exact coveredIn_iff.2 (hcov start hstart entry hent)
    obtain ⟨⟨deltas, final⟩, rfl⟩ := h.exists_ok hfound fun r hr => (hres r hr).1
    obtain ⟨hstarts, hval, hrep⟩ := h.of_ok hfound rfl
    refine ⟨deltas, final, rfl, ?_⟩
    rw [hitems hstarts, received_iff hrep hnames hval]
    exact fun r hr => (hres r hr).2

end Outcome

/-- A verified block executes, and each of its transactions has a receipt and touches only what it
declares, exactly if every transaction is covered in the state in which its batch starts. -/
theorem verified_block_executes_iff {p : Primitives} (hfree : p.CollisionFree) (digests : Digests)
    (root : (String → Option String) → String) (e : BatchSIExecutor) {b : PlannedBlock Transaction}
    {plan : Plan Transaction} {config : Config} (hparsed : checkParsed p plan = .ok ())
    (hverified : verifyBatchSIPlan p b plan config = .ok ()) (base : Snapshot) :
    (∃ starts out, Executes planned digests root e b base plan.batches starts out) ∧
      ∀ starts out, Executes planned digests root e b base plan.batches starts out →
        ((∃ deltas final, out = .ok (deltas, final) ∧
          List.Forall₂ (Received planned b) b.txList deltas) ↔
          ∀ start ∈ starts, ∀ entry ∈ start.transactions,
            CoveredIn planned e b start.snapshot entry.1) := by
  refine ⟨exists_executes base _, fun starts out hrun => ?_⟩
  obtain ⟨candidates, result, hbuild, hbatches, hblock⟩ := of_verified hfree hparsed hverified
  obtain ⟨items, table, hdescribed, rfl⟩ := build_eq_ok hbuild
  have hordered := wellOrdered_of_described hdescribed config.normalized.normalized
  rw [ordered_planDescriptors hdescribed.distinct hordered] at hblock
  obtain ⟨entries, hexecutable, hall⟩ := executable_plan (b := b) hdescribed hordered hblock
  rw [hbatches] at hrun
  exact executes_received_iff hrun hexecutable.found hall

/-! ## Blocks of listed transfers -/

section

open Proposal (CoreFields plainPrimitives)

def listedCore (value : Nat) (accesses : List Proposal.AccessItem) : CoreFields :=
  { sender := "0x0", receiver := "bob", value := value, stateKeys := ["k"], accessList := accesses,
    publicKey := "key" }

def listedTransaction (txID : String) (value : Nat) (accesses : List Proposal.AccessItem) :
    Transaction :=
  { listedCore value accesses with txID := txID, signature := "a" }

def listedBlock (items : List Transaction) : PlannedBlock Transaction :=
  { shardID := "s", height := 1, txList := items }

/-- A transfer that names neither of its accounts. -/
def bareTransfer : Transaction :=
  listedTransaction "t1" 1 [{ key := "x", mode := "write" }]

def accountAccesses : List Proposal.AccessItem :=
  [{ key := "balance:0x0", mode := "read_write" }, { key := "nonce:0x0", mode := "read_write" },
    { key := "balance:bob", mode := "read_write" }, { key := "nonce:bob", mode := "read" }]

/-- Two transfers that write the same accounts, so that each has a batch of its own. -/
def twoTransfers : List Transaction :=
  [listedTransaction "t1" 1 accountAccesses, listedTransaction "t2" 2 accountAccesses]

/-- One transfer has a short digest; every other text is its own. -/
def shortPrimitives : Primitives :=
  { plainPrimitives
    with sha256 := Equiv.swap (plainPrimitives.json bareTransfer.toCoreFields.json) "t1" }

lemma shortPrimitives_collisionFree : shortPrimitives.CollisionFree where
  sha256_inj := Equiv.injective _
  json_inj := Proposal.plainPrimitives_collisionFree.json_inj

/-- The short digest is the identifier, so the transfer passes all checks of its own. -/
lemma verify_bareTransfer : Proposal.verify shortPrimitives bareTransfer = none := by
  have hid : Proposal.computeID shortPrimitives bareTransfer.toCoreFields = "t1" :=
    Equiv.swap_apply_left _ _
  have hbasic : Proposal.validateBasic shortPrimitives bareTransfer = none := by
    unfold Proposal.validateBasic
    rw [hid]
    decide
  have hpublic :
      shortPrimitives.decodeString bareTransfer.publicKey = some (List.replicate 32 0) := by
    decide
  have hsig : shortPrimitives.decodeString bareTransfer.signature = some (List.replicate 64 0) := by
    decide
  have hbound : Proposal.isBoundSender shortPrimitives bareTransfer.sender bareTransfer.publicKey =
      true := by
    decide +kernel
  exact Proposal.verify_iff.2 ⟨hbasic, hbound, _, _, hpublic, hsig, by simp, by simp, rfl⟩

lemma digest_ne_empty (fields : List Json.Field) :
    shortPrimitives.digest (.object fields) ≠ "" := by
  have hjson : ∀ fields, plainPrimitives.json (.object fields) ≠ "" := by
    intro fields h
    have hlist := String.ofList_injective (h.trans (show "" = String.ofList [] from rfl))
    simp [Json.object, Json.plain] at hlist
  intro h
  -- the swap leaves the empty text
  have hemp : shortPrimitives.sha256 "" = "" :=
    Equiv.swap_apply_of_ne_of_ne (hjson bareTransfer.toCoreFields.fields).symm (by decide)
  exact hjson fields (Equiv.injective _ (h.trans hemp.symm))

lemma checkOrder_self (message : String) (items : List Transaction) :
    checkOrder message items items = .ok () := by
  refine forM_eq_ok.2 fun entry hentry => require_eq_ok.2 ?_
  have hpair := fst_mem_of_mem_zipIdx hentry
  rw [zip, zipWith_self, mem_map] at hpair
  obtain ⟨item, -, heq⟩ := hpair
  rw [← heq]

/-- A plan that defers nothing is verified with the block that it was built for. -/
lemma verified_of_build {items : List Transaction} {result : PlanningResult Transaction}
    {byID : GoMap String Transaction} {ordinals : GoMap String Int} {candidate : CandidateLoop}
    (hbuild : buildBatchSIPlanWithOrdinals planned (batchSIPlanDigest shortPrimitives)
      (listedBlock items) ({} : Config).normalized (some ordinals) = .ok result)
    (hbyID : items.foldlM addAccepted ∅ = .ok byID)
    (hcandidate : (items.map (·.txID)).foldlM (addCandidate byID ordinals) {} = .ok candidate)
    (hitems : candidate.txList = items) (hne : items ≠ [])
    (hlen : byID.len = items.length ∧ ordinals.len = items.length)
    (hresult : result.plan.transactionOrdinals = ordinals ∧ result.ordered = items ∧
      result.deferred = []) :
    checkParsed shortPrimitives result.plan = .ok () ∧
      verifyBatchSIPlan shortPrimitives (listedBlock items) result.plan {} = .ok () := by
  obtain ⟨hordinals, hordered, hdeferred⟩ := hresult
  obtain ⟨described, table, -, hplan⟩ := build_eq_ok hbuild
  have hids : result.plan.candidateTransactionIDs = items.map (·.txID) := hplan ▸ rfl
  have hnone : result.plan.deferredTransactions = [] := by
    rw [← hdeferred, hplan]
    rfl
  constructor
  · rw [hplan]
    exact require_bind_eq_ok.2 ⟨⟨rfl, rfl⟩, require_eq_ok.2 ⟨digest_ne_empty _, rfl⟩⟩
  · simp only [verifyBatchSIPlan, bind_eq_ok, require_eq_ok, hids, hnone, hordinals, length_map]
    refine ⟨(), hplan ▸ ⟨rfl, rfl, rfl⟩, (), fun h => hne (map_eq_nil_iff.1 h.1), (), hlen.2, byID,
      hbyID, byID, rfl, candidate, hcandidate, (), hlen.1, result, ?_, (), rfl, (), ?_, (), ?_, (),
      ?_, rfl⟩
    · rw [hitems]
      exact hbuild
    · rw [hordered]
      rfl
    · rw [hordered]
      exact checkOrder_self _ items
    · rw [hdeferred]

/-- A verified transfer whose access list names no account is refused as soon as its sender has the
value. -/
theorem verified_block_refused : ∃ (p : Primitives) (b : PlannedBlock Transaction)
    (plan : Plan Transaction) (base : Snapshot), p.CollisionFree ∧ checkParsed p plan = .ok () ∧
      verifyBatchSIPlan p b plan {} = .ok () ∧ (∀ item ∈ b.txList, Proposal.verify p item = none) ∧
      ∀ starts out, Executes planned sampleDigests (fun _ => "") {} b base plan.batches starts out →
        out = .error (.undeclaredWrite "t1") := by
  obtain ⟨result, hbuild, hresult, hbatches⟩ : ∃ result, buildBatchSIPlan planned
      (batchSIPlanDigest shortPrimitives) (listedBlock [bareTransfer]) {} = .ok result ∧
      (result.plan.transactionOrdinals = GoMap.put ∅ "t1" 1 ∧ result.ordered = [bareTransfer] ∧
        result.deferred = []) ∧ result.plan.batches = [⟨1, ["t1"]⟩] :=
    ⟨_, rfl, ⟨rfl, rfl, rfl⟩, rfl⟩
  obtain ⟨hparsed, hverified⟩ :=
    verified_of_build hbuild rfl rfl rfl (cons_ne_nil _ _) ⟨rfl, rfl⟩ hresult
  refine ⟨shortPrimitives, listedBlock [bareTransfer], result.plan,
    GoMap.put ∅ "s::balance:0x0" "100",
    shortPrimitives_collisionFree, hparsed, hverified, ?_, fun starts out hrun => ?_⟩
  · exact forall_mem_singleton.2 verify_bareTransfer
  · rw [hbatches] at hrun
    exact hrun.error_of_materialize rfl rfl

/-- In any state the transfers stay within their declared keys. -/
lemma covered_twoTransfers (base : Snapshot) : ∀ item ∈ twoTransfers,
    CoveredIn planned {} (listedBlock twoTransfers) base item := by
  have hwrites : ∀ item ∈ twoTransfers,
      DeclaresWrite (planned item) "s" ("balance:" ++ (transferAccounts (planned item)).1) ∧
        DeclaresWrite (planned item) "s" ("nonce:" ++ (transferAccounts (planned item)).1) ∧
        DeclaresWrite (planned item) "s" ("balance:" ++ (transferAccounts (planned item)).2) := by
    unfold DeclaresWrite
    decide +kernel
  intro item hitem
  obtain ⟨hsender, hnonce, hreceiver⟩ := hwrites item hitem
  exact covered_of_declaresWrite hsender hnonce hreceiver

/-- Two transfers that declare their accounts execute, one batch after the other. -/
theorem verified_block_executes_twoTransfers : ∃ plan : Plan Transaction,
    plan.batches = [⟨1, ["t1"]⟩, ⟨2, ["t2"]⟩] ∧ checkParsed shortPrimitives plan = .ok () ∧
      verifyBatchSIPlan shortPrimitives (listedBlock twoTransfers) plan {} = .ok () ∧
      ∃ starts deltas final, Executes planned sampleDigests (fun _ => "") {}
      (listedBlock twoTransfers) ∅
        plan.batches starts (.ok (deltas, final)) ∧
          List.Forall₂ (Received planned (listedBlock twoTransfers)) twoTransfers deltas := by
  obtain ⟨result, hbuild, hresult, hbatches⟩ : ∃ result, buildBatchSIPlan planned
      (batchSIPlanDigest shortPrimitives) (listedBlock twoTransfers) {} = .ok result ∧
      (result.plan.transactionOrdinals = (GoMap.put ∅ "t1" 1).put "t2" 2 ∧
        result.ordered = twoTransfers ∧ result.deferred = []) ∧
      result.plan.batches = [⟨1, ["t1"]⟩, ⟨2, ["t2"]⟩] :=
    ⟨_, rfl, ⟨rfl, rfl, rfl⟩, rfl⟩
  obtain ⟨hparsed, hverified⟩ :=
    verified_of_build hbuild rfl rfl rfl (cons_ne_nil _ _) ⟨rfl, rfl⟩ hresult
  refine ⟨result.plan, hbatches, hparsed, hverified, ?_⟩
  obtain ⟨⟨starts, out, hrun⟩, hiff⟩ := verified_block_executes_iff shortPrimitives_collisionFree
    sampleDigests (fun _ => "") {} hparsed hverified ∅
  obtain ⟨deltas, final, rfl, hreceived⟩ :=
    (hiff starts out hrun).2 fun start hstart entry hentry =>
    covered_twoTransfers start.snapshot _ (hrun.mem_txList start hstart entry hentry)
  exact ⟨starts, deltas, final, hrun, hreceived⟩

end

end ChainLab.Execution.BatchSI
