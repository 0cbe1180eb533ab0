import ChainLab.Execution.Accesses
import ChainLab.Execution.BatchSI.Execute

/-!
# What a transaction touches, and what it declares

`batchSIDeclaredAccess` tells the planner the keys of a transaction, `executeTransaction` touches
them. Commutative, cross-shard and direct transactions keep to what they declare.  A transfer does
not have to: the keys of its accounts come from its parties, and only an access list that names them
declares them. `within_executeTx` says exactly when a transaction keeps to its declarations over a
state.
-/

namespace ChainLab.Execution.BatchSI

open List
open Prog

def Declares (item : SignedTransaction) (shardID key : String) : Prop :=
  key ∈ (declaredAccess item shardID).1 ∨ key ∈ (declaredAccess item shardID).2

def DeclaresWrite (item : SignedTransaction) (shardID key : String) : Prop :=
  key ∈ (declaredAccess item shardID).2

section Declared

variable {item : SignedTransaction} {shardID key : String}

lemma mem_sortedKeys {keys : List String} : key ∈ sortedKeys keys ↔ key ∈ keys := by
  simp [sortedKeys, mem_insertionSort]

lemma DeclaresWrite.declares (h : DeclaresWrite item shardID key) : Declares item shardID key :=
  .inr h

lemma listed_declaredAccess (item : SignedTransaction) (shardID : String) :
    Listed (· ∈ (declaredAccess item shardID).1)
    (· ∈ (declaredAccess item shardID).2) item.accessList where
  read _ h hkey hmode := mem_sortedKeys.2 (mem_append_left _
    (mem_map_of_mem (mem_filter.2 ⟨h, by simpa [hkey, or_assoc] using hmode⟩)))
  write _ h hkey hmode := mem_sortedKeys.2 (mem_append_left _ (mem_append_left _
    (mem_map_of_mem (mem_filter.2 ⟨h, by simpa [hkey, or_assoc] using hmode⟩))))

lemma listed_declares (item : SignedTransaction) (shardID : String) :
    Listed (Declares item shardID) (DeclaresWrite item shardID) item.accessList where
  read access h hkey hmode := .inl ((listed_declaredAccess item shardID).read access h hkey hmode)
  write := (listed_declaredAccess item shardID).write

lemma declaresWrite_relayKey (h : isCrossShardTargetCommit item shardID = true) :
    DeclaresWrite item shardID (relayKey item) := by
  refine mem_sortedKeys.2 (mem_append_right _ ?_)
  simp [h]

end Declared

/-! ## Transfers -/

section

variable {item : SignedTransaction} {shardID : String} {store : String → String}
    {w : GoMap String String}

def ensureKey (store : String → String) (declaredWrites : List String) (key value : String)
    (w : GoMap String String) : GoMap String String :=
  if key ∈ declaredWrites ∧ Prog.look store w key = "" then w.put key value else w

/-- The writes after `ensureDeclaredAccount`. -/
def ensured (store : String → String) (declaredWrites : List String) (account : String)
    (amount : Int) (w : GoMap String String) : GoMap String String :=
  ensureKey store declaredWrites ("nonce:" ++ account) (Text.formatUint 0)
    (ensureKey store declaredWrites ("balance:" ++ account) (Text.formatInt amount) w)

variable {account key value : String} {amount : Int} {declaredWrites : List String}

variable {Q : Unit → GoMap String String → Prop} {other : String}

lemma within_ensureKey : (if key ∈ (declaredAccess item shardID).2 then do
        let stored ← read key
        (if stored = "" then write key value else return ())
      else return () : TxProg Unit).Within store (Declares item shardID)
    (DeclaresWrite item shardID) w Q ↔
        Q () (ensureKey store (declaredAccess item shardID).2 key value w) := by
  by_cases hkey : key ∈ (declaredAccess item shardID).2
  · have hwrite : DeclaresWrite item shardID key := hkey
    rw [if_pos hkey, within_bind, within_read, and_iff_right hwrite.declares]
    by_cases hemp : look store w key = ""
    · rw [if_pos hemp, within_write, and_iff_right hwrite, ensureKey, if_pos ⟨hkey, hemp⟩]
    · rw [if_neg hemp, within_pure, ensureKey, if_neg fun h => hemp h.2]
  · rw [if_neg hkey, within_pure, ensureKey, if_neg fun h => hkey h.1]

lemma within_ensureDeclaredAccount :
    (ensureDeclaredAccount account amount (declaredAccess item shardID).2).Within store
      (Declares item shardID) (DeclaresWrite item shardID) w Q ↔
        Q () (ensured store (declaredAccess item shardID).2 account amount w) :=
  within_bind.trans (within_ensureKey.trans within_ensureKey)

lemma look_ensureKey_ne {key' : String} (h : key' ≠ key) :
    look store (ensureKey store declaredWrites key value w) key' = look store w key' := by
  unfold ensureKey
  split
  · exact look_put_ne value h
  · rfl

lemma look_ensureKey_self : look store (ensureKey store declaredWrites key value w) key =
      if key ∈ declaredWrites ∧ look store w key = "" then value else look store w key := by
  unfold ensureKey
  split
  · exact look_put_self key value
  · rfl

lemma balance_ne_nonce (account account' : String) :
    "balance:" ++ account ≠ "nonce:" ++ account' := by
  intro h
  have hhead := congrArg (fun s => s.toList.head?) h
  simp at hhead

lemma append_right_inj {start account' : String} (h : start ++ account = start ++ account') :
    account = account' := by
  have hlist := congrArg String.toList h
  exact String.toList_injective (by simpa using hlist)

lemma formatInt_ne_empty (n : Int) : Text.formatInt n ≠ "" := by
  unfold Text.formatInt
  cases n <;> simp [Int.repr, toString]

def storedNonce (store : String → String) (account : String) : Nat :=
  (Text.parseUint (store ("nonce:" ++ account))).number 0

/-- The balance of an account, as a transfer reads it: an account that comes into being has
`amount`. -/
def openingBalance (store : String → String) (declaredWrites : List String) (account : String)
    (amount : Int) : Int :=
  (Text.parseInt (if "balance:" ++ account ∈ declaredWrites ∧
    store ("balance:" ++ account) = "" then
    Text.formatInt amount else store ("balance:" ++ account))).number 0

lemma nonce_ensured : (Text.parseUint (look store (ensured store declaredWrites account amount w)
        ("nonce:" ++ other))).number 0 =
      (Text.parseUint (look store w ("nonce:" ++ other))).number 0 := by
  have hbal : ∀ value, look store (ensureKey store declaredWrites ("balance:" ++ account) value w)
      ("nonce:" ++ other) = look store w ("nonce:" ++ other) :=
    fun _ => look_ensureKey_ne (balance_ne_nonce account other).symm
  unfold ensured
  by_cases hkey : "nonce:" ++ other = "nonce:" ++ account
  · rw [hkey] at hbal ⊢
    rw [look_ensureKey_self, hbal]
    split
    next h =>
      rw [h.2]
      decide
    next => rfl
  · rw [look_ensureKey_ne hkey, hbal]

lemma balance_ensured : look store (ensured store declaredWrites account amount w)
    ("balance:" ++ other) =
      if other = account ∧ "balance:" ++ account ∈ declaredWrites ∧
          look store w ("balance:" ++ account) = "" then Text.formatInt amount
      else look store w ("balance:" ++ other) := by
  rw [ensured, look_ensureKey_ne (balance_ne_nonce other account)]
  by_cases hother : other = account
  · subst hother
    simp only [look_ensureKey_self, true_and]
  · rw [look_ensureKey_ne fun h => hother (append_right_inj h), if_neg fun h => hother h.1]

lemma balance_ensured_both {sender receiver : String} :
    (Text.parseInt (look store (ensured store declaredWrites receiver 0
        (ensured store declaredWrites sender amount ∅)) ("balance:" ++ sender))).number 0 =
      openingBalance store declaredWrites sender amount := by
  have hopen : look store (ensured store declaredWrites sender amount ∅) ("balance:" ++ sender) =
      if "balance:" ++ sender ∈ declaredWrites ∧ store ("balance:" ++ sender) = "" then
        Text.formatInt amount else store ("balance:" ++ sender) := by
    simp only [balance_ensured, true_and, look_empty]
  rw [balance_ensured, if_neg, hopen, openingBalance]
  -- a receiver that is the sender has its balance already
  rintro ⟨rfl, hdecl, hemp⟩
  rw [hopen] at hemp
  split at hemp
  next => exact formatInt_ne_empty amount hemp
  next h => exact h ⟨hdecl, hemp⟩

section Covered

variable (digests : Digests) (defaultInitialBalance : Int) (shardID : String)
    (store : String → String)
  (item : SignedTransaction)

/-- A transfer declares the keys of its accounts, as far as it gets to them. -/
def TransferCovered : Prop :=
  let sender := (transferAccounts item).1
  let receiver := (transferAccounts item).2
  Declares item shardID ("nonce:" ++ sender) ∧
    (item.nonce = storedNonce store sender → 0 < item.value →
      Declares item shardID ("balance:" ++ sender) ∧
      (item.value ≤ openingBalance store (declaredAccess item shardID).2 sender
        defaultInitialBalance → DeclaresWrite item shardID ("balance:" ++ sender) ∧
        DeclaresWrite item shardID ("balance:" ++ receiver) ∧
        DeclaresWrite item shardID ("nonce:" ++ sender)))

def Covered : Prop :=
  isPureCommutativeDelta item.accessList = true ∨ isCrossShardTargetCommit item shardID = true ∨
    isDirectAccessTransaction item = true ∨ TransferCovered defaultInitialBalance shardID store item

variable {digests defaultInitialBalance shardID store item}

lemma within_deltas (w : GoMap String String) :
    (applyCommutativeDeltas item.accessList).Within store
    (Declares item shardID) (DeclaresWrite item shardID) w fun _ _ => True :=
  (listed_declares item shardID).within_commutativeDeltas

lemma within_executeTransfer :
    (executeTransfer defaultInitialBalance shardID item).Within store (Declares item shardID)
      (DeclaresWrite item shardID) ∅ (fun _ _ => True) ↔
        TransferCovered defaultInitialBalance shardID store item := by
  simp only [executeTransfer, nonce, balance, setBalance, setNonce, within_bind, within_ite,
    within_ensureDeclaredAccount, within_read, within_write, within_pure, nonce_ensured,
    balance_ensured_both, look_empty, within_deltas, implies_true, true_and, and_true, not_not,
      not_lt,
    not_le, ne_eq]
  refine and_congr_right fun hread => ⟨fun h hnonce hval => ?_, fun h hnonce hval => ?_⟩
  · obtain ⟨hbal, hrest⟩ := h hnonce hval
    refine ⟨hbal, fun hle => ?_⟩
    obtain ⟨-, hwrite, -, hrecv, hwnon⟩ := hrest hle
    exact ⟨hwrite, hrecv, hwnon⟩
  · obtain ⟨hbal, hrest⟩ := h hnonce hval
    refine ⟨hbal, fun hle => ?_⟩
    obtain ⟨hwrite, hrecv, hwnon⟩ := hrest hle
    exact ⟨hbal, hwrite, hrecv.declares, hrecv, hwnon⟩

lemma within_executeTx :
    (executeTx digests defaultInitialBalance shardID item).Within store (Declares item shardID)
      (DeclaresWrite item shardID) ∅ (fun _ _ => True) ↔
        Covered defaultInitialBalance shardID store item := by
  simp only [executeTx, Covered, within_bind, (listed_declares item shardID).within_semanticReads,
    within_ite, within_pure, within_write, within_deltas,
    (listed_declares item shardID).within_directAccess, within_executeTransfer, implies_true,
      true_and,
    and_true]
  rw [kinds_iff declaresWrite_relayKey, or_assoc, or_assoc]

lemma covered_of_declaresWrite
    (hsender : DeclaresWrite item shardID ("balance:" ++ (transferAccounts item).1))
    (hnonce : DeclaresWrite item shardID ("nonce:" ++ (transferAccounts item).1))
    (hrecv : DeclaresWrite item shardID ("balance:" ++ (transferAccounts item).2)) :
    Covered defaultInitialBalance shardID store item :=
  .inr (.inr (.inr ⟨hnonce.declares, fun _ _ => ⟨hsender.declares, fun _ =>
    ⟨hsender, hrecv, hnonce⟩⟩⟩))

end Covered

end

end ChainLab.Execution.BatchSI
