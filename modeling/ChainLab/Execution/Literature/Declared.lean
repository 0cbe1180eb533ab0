import ChainLab.Execution.BatchSI.Verified

/-!
# Declared accesses of the graph executors

The planners of the conflict-graph executors take the keys of a transaction from
`literatureDeclaredAccess`, and the executors run it through `SerialExecutor.ExecuteTransaction`
without comparing the two.  A transfer reads the keys of both its accounts, and it writes those that
are not there yet, so it keeps to an access list of its own only if that list names its accounts.
-/

namespace ChainLab.Execution.Literature

open BatchSI (accountKeys storedNonce openingBalance ensured ensureKey)
open Prog

/-- `literatureDeclaredAccess` has the body of `batchSIDeclaredAccess`, word by word. -/
def literatureDeclaredAccess (item : SignedTransaction) (shardID : String) :
    List String × List String :=
  BatchSI.declaredAccess item shardID

/-- The outcome of `SerialExecutor.ExecuteTransaction`. -/
abbrev executeTransaction (digests : Digests) (defaultInitialBalance : Int) (shardID : String)
    (base : Snapshot) (item : SignedTransaction) : Option TxError × Trace String String :=
  Serial.outcome (overlayKey shardID) (executeTx digests defaultInitialBalance shardID) base item

/-- The keys that a transaction reads and writes over a state are declared, in their modes. -/
def AccessesDeclared (digests : Digests) (defaultInitialBalance : Int) (shardID : String)
    (base : Snapshot) (item : SignedTransaction) : Prop :=
  (executeTransaction digests defaultInitialBalance shardID base item).2.Within
    (· ∈ (literatureDeclaredAccess item shardID).1) (· ∈ (literatureDeclaredAccess item shardID).2)

/-- A transaction that does not work on the accounts of its parties. -/
def KeepsToList (item : SignedTransaction) (shardID : String) : Prop :=
  isPureCommutativeDelta item.accessList = true ∨ isCrossShardTargetCommit item shardID = true ∨
    isDirectAccessTransaction item = true

/-- The access list names the key in one of the modes; without a list of its own a transaction
leaves the keys of its accounts to the planner. -/
def Names (item : SignedTransaction) (modes : List AccessMode) (key : String) : Prop :=
  item.accessList = [] ∨ item.accessListSource = "legacy_state_keys" ∨
    ∃ access ∈ item.accessList, access.key = key ∧ access.mode ∈ modes

abbrev NamesRead (item : SignedTransaction) : String → Prop :=
  Names item [.read, .readWrite, .commutativeDelta]

abbrev NamesWrite (item : SignedTransaction) : String → Prop :=
  Names item [.write, .readWrite, .commutativeDelta]

section Transfer

variable (defaultInitialBalance : Int) (shardID : String) (store : String → String)
  (item : SignedTransaction)

/-- Over a state, a transfer names the keys of its accounts: all as reads, those that are not there
as writes, and what it moves as writes if it succeeds. -/
def TransferDeclared : Prop :=
  (∀ key ∈ accountKeys item, NamesRead item key ∧ (store key = "" → NamesWrite item key)) ∧
    (item.nonce = storedNonce store item.sender → 0 < item.value →
      item.value ≤ openingBalance store (accountKeys item) item.sender defaultInitialBalance →
      NamesWrite item ("balance:" ++ item.sender) ∧ NamesWrite item ("balance:" ++ item.receiver) ∧
      NamesWrite item ("nonce:" ++ item.sender))

variable {defaultInitialBalance shardID store item} {R W : String → Prop} {w : GoMap String String}

section

variable {key : String}

lemma mem_listed {accesses : List AccessItem} {keep : AccessMode → Bool} {modes : List AccessMode}
    (hmode : ∀ mode, keep mode = true ↔ mode ∈ modes) (hne : key ≠ "") :
    key ∈ (accesses.filter fun access => access.key ≠ "" && keep access.mode).map AccessItem.key ↔
      ∃ access ∈ accesses, access.key = key ∧ access.mode ∈ modes := by
  simp only [List.mem_map, List.mem_filter, Bool.and_eq_true, decide_eq_true_eq, hmode]
  constructor
  · rintro ⟨access, ⟨hmem, -, hmode⟩, rfl⟩
    exact ⟨access, hmem, rfl, hmode⟩
  · rintro ⟨access, hmem, rfl, hmode⟩
    exact ⟨access, ⟨hmem, hne, hmode⟩, rfl⟩

variable (hkey : key ∈ accountKeys item)

include hkey

lemma mem_impliedKeys_iff : key ∈ BatchSI.impliedKeys item ↔
    item.accessList = [] ∨ item.accessListSource = "legacy_state_keys" := by
  unfold BatchSI.impliedKeys
  by_cases hlist : item.accessList = []
  · simp [hlist, hkey]
  · by_cases hsource : item.accessListSource = "legacy_state_keys" <;> simp [hlist, hsource, hkey]

lemma ne_of_mem_accountKeys : key ≠ "" ∧ key ≠ BatchSI.relayKey item := by
  have hhead : key.toList.head? = some 'b' ∨ key.toList.head? = some 'n' := by
    simp only [accountKeys, List.mem_cons, List.not_mem_nil, or_false] at hkey
    rcases hkey with rfl | rfl | rfl | rfl <;> simp
  constructor <;> rintro rfl <;> simp [BatchSI.relayKey] at hhead

lemma namesRead_iff : key ∈ (literatureDeclaredAccess item shardID).1 ↔ NamesRead item key := by
  have hmode : ∀ mode : AccessMode, (decide (mode = .read) || decide (mode = .readWrite) ||
      decide (mode = .commutativeDelta)) = true ↔
        mode ∈ [.read, .readWrite, .commutativeDelta] := by
    simp [or_assoc]
  have hlisted : key ∈ BatchSI.listedReads item.accessList ↔ _ :=
    mem_listed hmode (ne_of_mem_accountKeys hkey).1
  rw [literatureDeclaredAccess, BatchSI.declaredAccess, BatchSI.mem_sortedKeys, List.mem_append,
    mem_impliedKeys_iff hkey, hlisted, or_comm, or_assoc]
  rfl

lemma namesWrite_iff : key ∈ (literatureDeclaredAccess item shardID).2 ↔ NamesWrite item key := by
  obtain ⟨hne, hrelay⟩ := ne_of_mem_accountKeys hkey
  have hmode : ∀ mode : AccessMode, (decide (mode = .write) || decide (mode = .readWrite) ||
      decide (mode = .commutativeDelta)) = true ↔
        mode ∈ [.write, .readWrite, .commutativeDelta] := by
    simp [or_assoc]
  have hlisted : key ∈ BatchSI.listedWrites item.accessList ↔ _ := mem_listed hmode hne
  have hother : key ∉ if isCrossShardTargetCommit item shardID then [BatchSI.relayKey item]
      else [] := by
    split <;> simp [hrelay]
  rw [literatureDeclaredAccess, BatchSI.declaredAccess, BatchSI.mem_sortedKeys, List.mem_append,
    List.mem_append, or_iff_left hother, mem_impliedKeys_iff hkey, hlisted, or_comm, or_assoc]
  rfl

end

variable {amount : Int} {keys : List String} {receiver sender : String}

lemma within_ensureAccount {account : String} (hbal : "balance:" ++ account ∈ keys)
    (hnonce : "nonce:" ++ account ∈ keys) {Q : Unit → GoMap String String → Prop} :
    (ensureAccount account amount).Within store R W w Q ↔ R ("balance:" ++ account) ∧
      (look store w ("balance:" ++ account) = "" → W ("balance:" ++ account)) ∧
      R ("nonce:" ++ account) ∧
      (look store w ("nonce:" ++ account) = "" → W ("nonce:" ++ account)) ∧
      Q () (ensured store keys account amount w) := by
  have hlook : ∀ value, look store (w.put ("balance:" ++ account) value) ("nonce:" ++ account) =
      look store w ("nonce:" ++ account) :=
    fun value => look_put_ne value (BatchSI.balance_ne_nonce account account).symm
  by_cases hemp : look store w ("balance:" ++ account) = ""
  · by_cases hemp' : look store w ("nonce:" ++ account) = "" <;>
      simp [ensureAccount, setBalance, setNonce, ensured, ensureKey, hbal, hnonce, hlook, hemp,
        hemp']
  · by_cases hemp' : look store w ("nonce:" ++ account) = "" <;>
      simp [ensureAccount, setBalance, setNonce, ensured, ensureKey, hbal, hnonce, hemp, hemp']

/-- After the sender is ensured, the balance of the receiver is missing only if it is another one
and was missing before. -/
lemma balance_missing_iff (hbal : "balance:" ++ sender ∈ keys) :
    look store (ensured store keys sender amount ∅) ("balance:" ++ receiver) = "" ↔
      receiver ≠ sender ∧ store ("balance:" ++ receiver) = "" := by
  rw [BatchSI.balance_ensured]
  by_cases hsame : receiver = sender
  · subst hsame
    refine iff_of_false ?_ fun h => h.1 rfl
    split
    next => exact BatchSI.formatInt_ne_empty amount
    next hnot => exact fun h => hnot ⟨rfl, hbal, h⟩
  · rw [if_neg fun h => hsame h.1, look_empty, and_iff_right hsame]

lemma nonce_missing_iff (hnonce : "nonce:" ++ sender ∈ keys) :
    look store (ensured store keys sender amount ∅) ("nonce:" ++ receiver) = "" ↔
      receiver ≠ sender ∧ store ("nonce:" ++ receiver) = "" := by
  by_cases hsame : receiver = sender
  · subst hsame
    refine iff_of_false ?_ fun h => h.1 rfl
    rw [ensured, BatchSI.look_ensureKey_self]
    split
    next => decide
    next hnot => exact fun h => hnot ⟨hnonce, h⟩
  · rw [ensured, BatchSI.look_ensureKey_ne fun he => hsame (BatchSI.append_right_inj he),
      BatchSI.look_ensureKey_ne (BatchSI.balance_ne_nonce sender receiver).symm, look_empty,
      and_iff_right hsame]

lemma within_executeTransfer (hlisted : Listed R W item.accessList) :
    (executeTransfer defaultInitialBalance item).Within store R W ∅ (fun _ _ => True) ↔
      (∀ key ∈ accountKeys item, R key ∧ (store key = "" → W key)) ∧
        (item.nonce = storedNonce store item.sender → 0 < item.value →
          item.value ≤ openingBalance store (accountKeys item) item.sender defaultInitialBalance →
          W ("balance:" ++ item.sender) ∧ W ("balance:" ++ item.receiver) ∧
            W ("nonce:" ++ item.sender)) := by
  obtain ⟨hsender, hnonce, hrecv, hnonce'⟩ : "balance:" ++ item.sender ∈ accountKeys item ∧
      "nonce:" ++ item.sender ∈ accountKeys item ∧
      "balance:" ++ item.receiver ∈ accountKeys item ∧
        "nonce:" ++ item.receiver ∈ accountKeys item := by
    simp [accountKeys]
  have hdelt : ∀ w : GoMap String String,
      (applyCommutativeDeltas item.accessList).Within store R W w
      fun _ _ => True := fun _ => hlisted.within_commutativeDeltas
  -- the transfer, statement by statement
  simp only [executeTransfer, nonce, balance, setBalance, setNonce, within_bind, within_ite,
    within_ensureAccount hsender hnonce, within_ensureAccount hrecv hnonce', within_read,
    within_write, within_pure, BatchSI.nonce_ensured, BatchSI.balance_ensured_both,
    balance_missing_iff hsender, nonce_missing_iff hnonce, look_empty, hdelt, implies_true,
    true_and, and_true, not_not, not_lt, not_le, ne_eq]
  simp only [accountKeys, List.forall_mem_cons, List.not_mem_nil, false_implies, implies_true,
    and_true]
  constructor
  · rintro ⟨hread, hnew, hrnon, hnewNonce, hread', hnew', hrnon', hnewNonce', -, hmove⟩
    refine ⟨⟨⟨hread, hnew⟩, ⟨hrnon, hnewNonce⟩, ⟨hread', ?_⟩, ⟨hrnon', ?_⟩⟩, ?_⟩
    · intro hemp
      by_cases hsame : item.receiver = item.sender
      · rw [hsame] at hemp ⊢
        exact hnew hemp
      · exact hnew' ⟨hsame, hemp⟩
    · intro hemp
      by_cases hsame : item.receiver = item.sender
      · rw [hsame] at hemp ⊢
        exact hnewNonce hemp
      · exact hnewNonce' ⟨hsame, hemp⟩
    · intro hmatch hval hle
      obtain ⟨-, hrest⟩ := hmove hmatch hval
      obtain ⟨hwrite, -, hwrite', hwnon⟩ := hrest hle
      exact ⟨hwrite, hwrite', hwnon⟩
  · rintro ⟨⟨⟨hread, hnew⟩, ⟨hrnon, hnewNonce⟩, ⟨hread', hnew'⟩, ⟨hrnon', hnewNonce'⟩⟩, hmove⟩
    refine ⟨hread, hnew, hrnon, hnewNonce, hread', fun h => hnew' h.2, hrnon',
      fun h => hnewNonce' h.2, hrnon, fun hmatch hval => ⟨hread, fun hle => ?_⟩⟩
    obtain ⟨hwrite, hwrite', hwnon⟩ := hmove hmatch hval hle
    exact ⟨hwrite, hread', hwrite', hwnon⟩

/-- A transaction keeps to what it declares over a state exactly if it keeps to its access list, or
is a transfer that declares its accounts. -/
lemma within_executeTx {digests : Digests} :
    (executeTx digests defaultInitialBalance shardID item).Within store
      (· ∈ (literatureDeclaredAccess item shardID).1)
      (· ∈ (literatureDeclaredAccess item shardID).2) ∅ (fun _ _ => True) ↔
        KeepsToList item shardID ∨ TransferDeclared defaultInitialBalance store item := by
  set declared := literatureDeclaredAccess item shardID
  have hlisted : Listed (· ∈ declared.1) (· ∈ declared.2) item.accessList :=
    BatchSI.listed_declaredAccess item shardID
  have hrelay : isCrossShardTargetCommit item shardID = true →
      "relay_commit:" ++ item.txID ∈ declared.2 := BatchSI.declaresWrite_relayKey
  have hdelt : ∀ w : GoMap String String, (applyCommutativeDeltas item.accessList).Within store
      (· ∈ declared.1) (· ∈ declared.2) w fun _ _ => True :=
        fun _ => hlisted.within_commutativeDeltas
  simp only [executeTx, within_bind, hlisted.within_semanticReads, within_ite,
    within_pure, within_write, hdelt, hlisted.within_directAccess,
    within_executeTransfer hlisted, implies_true, true_and, and_true]
  rw [kinds_iff hrelay]
  refine or_congr Iff.rfl (and_congr (forall₂_congr fun key hkey => ?_) ?_)
  · rw [namesRead_iff hkey, namesWrite_iff hkey]
  · rw [namesWrite_iff (by simp [accountKeys]), namesWrite_iff (by simp [accountKeys]),
      namesWrite_iff (by simp [accountKeys])]

end Transfer

lemma accessesDeclared_iff {digests : Digests} {defaultInitialBalance : Int} {shardID : String}
    {base : Snapshot} {item : SignedTransaction} :
    AccessesDeclared digests defaultInitialBalance shardID base item ↔
      KeepsToList item shardID ∨ TransferDeclared defaultInitialBalance
        (Serial.view (overlayKey shardID) base) item := by
  have h : (executeTx digests defaultInitialBalance shardID item).Within
      (Serial.view (overlayKey shardID) base) (· ∈ (literatureDeclaredAccess item shardID).1)
      (· ∈ (literatureDeclaredAccess item shardID).2) ∅ (fun _ _ => True) ↔ _ :=
    within_iff Trace.Within.empty
  rw [and_true] at h
  exact h.symm.trans within_executeTx

/-- The declared accesses cover the execution over a state exactly if the transaction keeps to its
access list or names its accounts there; they cover it over every state exactly if it keeps to its
list or names all keys of its accounts, to read and to write. -/
theorem declared_access_covers_iff (digests : Digests) (defaultInitialBalance : Int)
    (shardID : String) (item : SignedTransaction) :
    (∀ base, AccessesDeclared digests defaultInitialBalance shardID base item ↔
        KeepsToList item shardID ∨ TransferDeclared defaultInitialBalance
          (Serial.view (overlayKey shardID) base) item) ∧
      ((∀ base, AccessesDeclared digests defaultInitialBalance shardID base item) ↔
        KeepsToList item shardID ∨ ∀ key ∈ accountKeys item, NamesRead item key ∧
          NamesWrite item key) := by
  refine ⟨fun base => accessesDeclared_iff, fun h => ?_, fun h base => accessesDeclared_iff.2 ?_⟩
  · -- over the empty state every key of the accounts is missing
    rcases accessesDeclared_iff.1 (h ∅) with hkeeps | ⟨hkeys, -⟩
    · exact .inl hkeeps
    · exact .inr fun key hkey => ⟨(hkeys key hkey).1, (hkeys key hkey).2 rfl⟩
  · rcases h with hkeeps | hkeys
    · exact .inl hkeeps
    have hwrite : ∀ key ∈ accountKeys item, NamesWrite item key :=
      fun key hkey => (hkeys key hkey).2
    refine .inr ⟨fun key hkey => ⟨(hkeys key hkey).1, fun _ => hwrite key hkey⟩, fun _ _ _ => ?_⟩
    exact ⟨hwrite _ (by simp [accountKeys]), hwrite _ (by simp [accountKeys]),
      hwrite _ (by simp [accountKeys])⟩

open BatchSI (planned bareTransfer shortPrimitives sampleDigests) in
/-- A verified transfer whose access list names no account reads its accounts all the same. -/
theorem accounts_undeclared : ∃ p t, Proposal.Primitives.CollisionFree p ∧
    Proposal.verify p t = none ∧ ¬ AccessesDeclared sampleDigests 1000000 "s" ∅ (planned t) := by
  refine ⟨shortPrimitives, bareTransfer, BatchSI.shortPrimitives_collisionFree,
    BatchSI.verify_bareTransfer, fun h => ?_⟩
  have hread : "balance:0x0" ∈ (literatureDeclaredAccess (planned bareTransfer) "s").1 :=
    h.1 ⟨"balance:0x0", "", false⟩ (by decide +kernel)
  exact absurd hread (by decide +kernel)

end ChainLab.Execution.Literature
