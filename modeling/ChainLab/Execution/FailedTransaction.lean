import ChainLab.Data.Reorder
import ChainLab.Execution.AriaSerializable
import ChainLab.Execution.BatchSI.Coverage

/-!
# Failed transactions

A transfer creates the accounts of its parties before it checks anything: the sender with the
default balance, the receiver with nothing.  A transfer that fails keeps the accounts it has
created.
-/

namespace ChainLab.Execution

open Prog List Aria

/-! ## Opening accounts -/

section

variable {store : String → String} {parties : List String} {w : GoMap String String}
  {account key value : String} {Q : Unit → GoMap String String → Prop}

def recordKeys (account : String) : List String := ["balance:" ++ account, "nonce:" ++ account]

/-- The account has a balance and a nonce. -/
def Recorded (store : String → String) (account : String) : Prop :=
  ∀ key ∈ recordKeys account, store key ≠ ""

/-- The writes fill empty keys of the parties' accounts. -/
def Opened (store : String → String) (parties : List String) (w : GoMap String String) : Prop :=
  ∀ key value, w.find key = some value →
    store key = "" ∧ value ≠ "" ∧ ∃ account ∈ parties, key ∈ recordKeys account

lemma Opened.put (h : Opened store parties w) (hacc : account ∈ parties)
    (hkey : key ∈ recordKeys account) (hemp : look store w key = "") (hval : value ≠ "") :
    Opened store parties (w.put key value) := by
  intro key' value' hfind
  by_cases hne : key' = key
  · subst hne
    rw [GoMap.find_put_self, Option.some.injEq] at hfind
    refine ⟨?_, hfind ▸ hval, account, hacc, hkey⟩
    -- what the transaction has written itself is not empty
    cases hown : w.find key' with
    | none => simpa [look, hown] using hemp
    | some own => exact absurd (by simpa [look, hown] using hemp) (h key' own hown).2.1
  · exact h key' value' ((GoMap.find_put_ne _ _ hne).symm.trans hfind)

/-- One half of `ensureAccount`. -/
lemma within_fill (hw : Opened store parties w) (hacc : account ∈ parties)
    (hkey : key ∈ recordKeys account) (hval : value ≠ "")
    (hQ : ∀ w', Opened store parties w' → look store w' key ≠ "" →
      (∀ key', look store w key' ≠ "" → look store w' key' ≠ "") → Q () w') :
    (Prog.read key >>= fun current => if current = "" then Prog.write key value else pure ()).Within
      store (fun _ => True) (fun _ => True) w Q := by
  simp only [within_bind, within_read, within_ite, within_write, within_pure, true_and]
  refine ⟨fun hemp => ?_, fun hset => hQ w hw hset fun _ => id⟩
  refine hQ _ (hw.put hacc hkey hemp hval) (by rwa [look_put_self]) fun key' hset => ?_
  by_cases hne : key' = key
  · rwa [hne, look_put_self]
  · rwa [look_put_ne _ hne]

lemma within_ensureAccount_opened {amount : Int} (hw : Opened store parties w)
    (hacc : account ∈ parties)
    (hQ : ∀ w', Opened store parties w' → Recorded (look store w') account →
      (∀ key, look store w key ≠ "" → look store w' key ≠ "") → Q () w') :
    (ensureAccount account amount).Within store (fun _ => True) (fun _ => True) w Q := by
  have hsplit :
      ensureAccount account amount = ((Prog.read ("balance:" ++ account) >>= fun current =>
        if current = "" then setBalance account amount else pure ()) >>= fun _ =>
      Prog.read ("nonce:" ++ account) >>= fun current =>
        if current = "" then setNonce account 0 else pure ()) := rfl
  rw [hsplit, within_bind]
  refine within_fill hw hacc (by simp [recordKeys]) (BatchSI.formatInt_ne_empty amount) ?_
  intro w₁ hw₁ hbal hold
  refine within_fill hw₁ hacc (by simp [recordKeys]) (by decide) ?_
  intro w₂ hw₂ hnonce hold'
  refine hQ w₂ hw₂ ?_ fun key h => hold' key (hold key h)
  simp [Recorded, recordKeys, hnonce, hold' _ hbal]

end

/-! ## What a failure leaves behind -/

section

variable {digests : Digests} {defaultInitialBalance : Int} {shardID : String}
  {store : String → String} {item : SignedTransaction} {err : TxError} {t : Trace String String}

lemma within_of_forall {α : Type} {p : TxProg α} {w : GoMap String String}
    {Q : α → GoMap String String → Prop} (h : ∀ a w, Q a w) :
    p.Within store (fun _ => True) (fun _ => True) w Q := by
  induction p generalizing w with
  | done a => exact h a w
  | get k next ih => exact ⟨trivial, ih _⟩
  | set k v next ih => exact ⟨trivial, ih⟩

section

variable (hrun : (executeTx digests defaultInitialBalance shardID item).run store = (some err, t))

include hrun

/-- After a failure both parties have an account, and nothing else has changed. -/
lemma failed_opened : Opened store [item.sender, item.receiver] t.writes ∧
      ∀ account ∈ [item.sender, item.receiver], Recorded (look store t.writes) account := by
  have hwithin : (executeTx digests defaultInitialBalance shardID item).Within store (fun _ => True)
      (fun _ => True) ∅ fun a w => a ≠ none → Opened store [item.sender, item.receiver] w ∧
        ∀ account ∈ [item.sender, item.receiver], Recorded (look store w) account := ?_
  · have h := ((within_iff (t := {}) ⟨fun _ _ => trivial, fun _ _ _ => trivial⟩).1 hwithin).2
    rw [← run, hrun] at h
    exact h (Option.some_ne_none err)
  -- every other kind of transaction succeeds
  have hsucc : ∀ {β : Type} {p : TxProg β} {w : GoMap String String}
      {P : β → GoMap String String → Prop}, p.Within store (fun _ => True) (fun _ => True) w
        fun a w' => (none : Option TxError) ≠ none → P a w' :=
    within_of_forall fun _ _ h => absurd rfl h
  simp only [executeTx, within_bind, within_ite, within_pure]
  refine within_forM_skip (fun access _ w Q => ?_) |>.2 ⟨fun _ => hsucc, fun _ =>
    ⟨fun _ => hsucc, fun _ => ⟨fun _ => hsucc, fun _ => ?_⟩⟩⟩
  · by_cases h : access.mode = .read ∧ access.key ≠ "" ∧
      access.updateSemantics = "category_metadata" <;>
      simp [h]
  have hstart : Opened store [item.sender, item.receiver] ∅ := fun _ _ h => by cases h
  rw [executeTransfer, within_bind]
  refine within_ensureAccount_opened hstart (by simp) fun w₁ hw₁ hsender _ => ?_
  rw [within_bind]
  refine within_ensureAccount_opened hw₁ (by simp) fun w₂ hw₂ hrecv hold => ?_
  have hopened : Opened store [item.sender, item.receiver] w₂ ∧
      ∀ account ∈ [item.sender, item.receiver], Recorded (look store w₂) account := by
    refine ⟨hw₂, ?_⟩
    simp only [mem_cons, not_mem_nil, or_false, forall_eq_or_imp, forall_eq]
    exact ⟨fun key hkey => hold key (hsender key hkey), hrecv⟩
  simp only [nonce, balance, within_bind, within_read, within_ite, within_pure, true_and]
  exact ⟨fun _ _ => hopened, fun _ => ⟨fun _ _ => hopened, fun _ => ⟨fun _ _ => hopened,
    fun _ => within_of_forall fun _ _ => within_of_forall fun _ _ => within_of_forall fun _ _ =>
      hsucc⟩⟩⟩

lemma failed_writes_nothing_iff :
    t.writes.sortedKeys = [] ↔ Recorded store item.sender ∧ Recorded store item.receiver := by
  obtain ⟨hopened, hrec⟩ := failed_opened hrun
  rw [eq_nil_iff_forall_not_mem]
  refine ⟨fun hnone => ?_, ?_⟩
  · have hlook : look store t.writes = store := by
      funext key
      cases hfind : t.writes.find key with
      | none => rw [look, hfind, Option.getD_none]
      | some value => exact absurd (GoMap.mem_sortedKeys.2 ⟨value, hfind⟩) (hnone key)
    rw [hlook] at hrec
    exact ⟨hrec _ (by simp), hrec _ (by simp)⟩
  · rintro ⟨hsender, hrecv⟩ key hmem
    obtain ⟨value, hfind⟩ := GoMap.mem_sortedKeys.1 hmem
    obtain ⟨hemp, -, account, hacc, hkey⟩ := hopened key value hfind
    rcases mem_pair.1 hacc with rfl | rfl
    · exact hsender key hkey hemp
    · exact hrecv key hkey hemp

end

end

/-! ## Deleting a failed transaction -/

section

variable (digests : Digests) (root : (String → Option String) → String)
    (defaultInitialBalance : Int)
  (b : Block) (base : Snapshot)

/-- The receipts of a block without their state roots. -/
def serialReceipts (items : List SignedTransaction) : List Receipt :=
  (serialExecuteBlock digests root defaultInitialBalance { b with txList :=
    items } base).receipts.map
    fun receipt => { receipt with stateRootAfterTx := "" }

def serialState (items : List SignedTransaction) : Snapshot :=
  (serialExecuteBlock digests root defaultInitialBalance { b with txList :=
    items } base).stateUpdates

/-- Deleting the transaction changes no other receipt, and no balance or nonce. -/
structure Deletable (before : List SignedTransaction) (item : SignedTransaction)
    (after : List SignedTransaction) : Prop where
  receipts_eq : (serialReceipts digests root defaultInitialBalance b base
      (before ++ item :: after)).eraseIdx before.length =
    serialReceipts digests root defaultInitialBalance b base (before ++ after)
  state_eq : ∀ account, ∀ key ∈ recordKeys account,
    (serialState digests root defaultInitialBalance b base (before ++ item :: after)).get
        (overlayKey b.shardID key) =
      (serialState digests root defaultInitialBalance b base (before ++ after)).get
        (overlayKey b.shardID key)

variable {digests root defaultInitialBalance b base}

lemma serialState_eq (items : List SignedTransaction) :
    serialState digests root defaultInitialBalance b base items =
      (Serial.serialFrom (overlayKey b.shardID) (executeTx digests defaultInitialBalance b.shardID)
        base items).2 :=
  (serialExecuteBlock_eq base items).1

lemma serialReceipts_eq (items : List SignedTransaction) :
    serialReceipts digests root defaultInitialBalance b base items =
      (Serial.outcomes (overlayKey b.shardID) (executeTx digests defaultInitialBalance b.shardID)
        base items).map fun entry => Receipt.of b entry.1 entry.2.1 := by
  have h :=
    congrArg (map Prod.snd) (@serialExecuteBlock_eq digests root defaultInitialBalance b base
    items).2
  rw [map_map, map_zipWith] at h
  rw [serialReceipts, serialExecuteBlock, map_map, Serial.outcomes, map_zip_eq_zipWith]
  exact h

/-- A failed transaction can be deleted, whatever follows it, exactly if both of its parties have a
balance and a nonce where it runs. -/
theorem failed_deletable_iff (before : List SignedTransaction) (item : SignedTransaction)
    (hfail : (txOutcome digests defaultInitialBalance b
      (serialState digests root defaultInitialBalance b base before) item).1 ≠ none) :
    (∀ after, Deletable digests root defaultInitialBalance b base before item after) ↔
      Recorded (Serial.view (overlayKey b.shardID)
          (serialState digests root defaultInitialBalance b base before)) item.sender ∧
        Recorded (Serial.view (overlayKey b.shardID)
          (serialState digests root defaultInitialBalance b base before)) item.receiver := by
  set state := serialState digests root defaultInitialBalance b base with hstate'
  rcases hrun : txOutcome digests defaultInitialBalance b (state before) item with ⟨_ | err, t⟩
  · exact absurd (by rw [hrun]) hfail
  rw [← failed_writes_nothing_iff hrun]
  -- the block up to the failed transaction, and what follows
  have hstate : ∀ after, state (before ++ item :: after) =
      (Serial.serialFrom (overlayKey b.shardID) (executeTx digests defaultInitialBalance b.shardID)
        (Serial.applyWrites (overlayKey b.shardID) t.writes (state before)) after).2 := by
    intro after
    rw [hstate', serialState_eq] at hrun
    rw [hstate', serialState_eq (before ++ item :: after), Serial.serialFrom_append,
      serialState_eq before]
    simp only [Serial.serialFrom, hrun]
  constructor
  · intro h
    by_contra hwrites
    rcases Serial.exists_find_applyWrites (overlayKey b.shardID) (state before) hwrites with
      ⟨key, value, hfind, hafter⟩
    obtain ⟨hempty, hvalue, account, -, hkey⟩ := (failed_opened hrun).1 key value hfind
    have hsame := (h []).state_eq account key hkey
    rw [← hstate', hstate, append_nil] at hsame
    exact hvalue ((GoMap.get_of_find hafter).symm.trans (hsame.trans hempty))
  · intro hwrites after
    have hnext :
        Serial.applyWrites (overlayKey b.shardID) t.writes (state before) = state before := by
      rw [Serial.applyWrites, hwrites, foldl_nil]
    refine ⟨?_, fun account key _ => ?_⟩
    · rw [serialReceipts_eq, serialReceipts_eq, Serial.outcomes_append, Serial.outcomes_append,
        Serial.outcomes_cons, map_append, map_append, map_cons,
        eraseIdx_append_of_length_le (by simp [Serial.outcomes, Serial.length_serialFrom])]
      rw [hstate', serialState_eq] at hrun hnext
      simp [Serial.outcomes, Serial.length_serialFrom, hrun, hnext]
    · rw [← hstate', hstate, hnext, hstate', serialState_eq (before ++ after),
        Serial.serialFrom_append, serialState_eq]

/-! ## A receiver that a failure has opened -/

def wrongNonce : SignedTransaction :=
  { txID := "t1", sender := "a", receiver := "b", nonce := 7, value := 10 }

def spendOpened : SignedTransaction := { txID := "t2", sender := "b", receiver := "c", value := 10 }

/-- The first transfer has a wrong nonce.  Its receiver is opened with an empty balance, so the
second transfer fails as well; alone, it would spend the default balance. -/
theorem failing_transfer_not_deletable :
    (serialReceipts plainDigests (fun _ => "") 1000000 { shardID := "s", height := 1 } ∅
        [wrongNonce, spendOpened]).map Receipt.error =
          [some (.nonceMismatch 0 7), some .insufficientBalance] ∧
      ¬ Deletable plainDigests (fun _ => "") 1000000 { shardID := "s", height := 1 } ∅ [] wrongNonce
        [spendOpened] := by
  refine ⟨by decide +kernel, fun h => ?_⟩
  exact absurd (congrArg (map Receipt.error) h.receipts_eq) (by decide +kernel)

theorem failed_deletable_late :
    Deletable plainDigests (fun _ => "") 1000000 { shardID := "s", height := 1 } transferBase []
      (transfer "t2" 1) [transfer "t1" 3] :=
  (failed_deletable_iff [] (transfer "t2" 1) (by decide +kernel)).2
    ⟨by unfold Recorded; decide +kernel, by unfold Recorded; decide +kernel⟩ _

end
end ChainLab.Execution
