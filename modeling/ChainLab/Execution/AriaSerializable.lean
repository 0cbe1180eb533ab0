import ChainLab.Execution.Aria

/-!
# What Aria commits in an epoch is serializable

A transaction that commits has not written what a lower transaction wrote.  If it also has not read
what a lower one wrote, it can come after all of these.  Otherwise, no lower one has read what it
wrote, and it can come before them.  So the committed transactions can be dealt out to the two ends
of a serial order, with those that write nothing in front.
-/

namespace ChainLab.Execution.Aria

open List GoMap
open Serial

/-! ## Reservations -/

section

/-- The key is reserved for a number up to `tid`. -/
def Held (table : GoMap String Nat) (tid : Nat) (key : String) : Prop :=
  table.get key ≠ 0 ∧ table.get key ≤ tid

variable {table : GoMap String Nat} {tid tid' : Nat} {key key' : String} {keys : List String}

lemma Held.le (h : Held table tid key) (hle : tid ≤ tid') : Held table tid' key :=
  ⟨h.1, h.2.trans hle⟩

lemma held_reserve (h : Held table tid key) (hpos : tid' ≠ 0) :
    Held (reserve tid' table key') tid key := by
  unfold reserve
  split
  · next hlow =>
    unfold Held
    rw [get_put]
    split
    · next he =>
      subst he
      rcases hlow with hzero | hlt
      · exact absurd hzero h.1
      · exact ⟨hpos, hlt.le.trans h.2⟩
    · exact h
  · exact h

lemma held_reserve_self (hpos : tid ≠ 0) : Held (reserve tid table key) tid key := by
  unfold reserve
  split
  · exact ⟨by simpa [get_put] using hpos, by simp [get_put]⟩
  next hlow =>
  push Not at hlow
  exact hlow

lemma held_foldl (h : Held table tid key) (hpos : tid' ≠ 0) :
    Held (keys.foldl (reserve tid') table) tid key :=
  foldlRecOn (motive := (Held · tid key)) keys _ h fun _ h _ _ => held_reserve h hpos

lemma held_foldl_mem (hkey : key ∈ keys) (hpos : tid ≠ 0) :
    Held (keys.foldl (reserve tid) table) tid key :=
  Run.foldl_of_mem (P := (Held · tid key)) hkey (fun _ => held_reserve_self hpos)
    (fun _ _ _ h => held_reserve h hpos) table

lemma not_mem_of_not_reservedBelow (h : reservedBelow table tid keys = false)
    (hheld : Held table tid' key) (hlt : tid' < tid) : key ∉ keys := by
  intro hmem
  have hbelow := any_eq_false.1 h key hmem
  simp only [ne_eq, Bool.and_eq_true, decide_eq_true_eq, not_and, not_lt] at hbelow
  exact absurd (hbelow (by simpa using hheld.1)) (by have := hheld.2; omega)

/-- An attempt's keys are reserved for its own number or a lower one. -/
structure HeldKeys (table : AriaReservationTable) (tid : Nat) (attempt : AriaAttempt) : Prop where
  reads : ∀ key ∈ uniqueReadKeys attempt.delta.readSet, Held table.minReader tid key
  writes : ∀ key ∈ sortedWriteKeys attempt.delta.writeSet, Held table.minWriter tid key

variable {attempt : AriaAttempt} {position : Nat}

lemma heldKeys_buildReservationsFrom {table : AriaReservationTable} (attempts : List AriaAttempt)
    (h : HeldKeys table tid attempt) :
    HeldKeys (buildReservationsFrom table position attempts) tid attempt := by
  induction attempts generalizing table position with
  | nil => exact h
  | cons a attempts ih =>
    refine ih ?_
    split
    · exact ⟨fun key hkey => held_foldl (h.reads key hkey) (by omega),
        fun key hkey => held_foldl (h.writes key hkey) (by omega)⟩
    · exact h

lemma heldKeys_of_reserves {table : AriaReservationTable} {i : Nat} {attempts : List AriaAttempt}
    (hat : attempts[i]? = some attempt) (hres : reserves attempt = true) :
    HeldKeys (buildReservationsFrom table position attempts) (position + i + 1) attempt := by
  induction attempts generalizing table position i with
  | nil => simp at hat
  | cons a attempts ih =>
    cases i with
    | zero =>
      cases hat
      refine heldKeys_buildReservationsFrom attempts ?_
      rw [if_pos hres]
      exact ⟨fun key hkey => held_foldl_mem hkey (by omega),
        fun key hkey => held_foldl_mem hkey (by omega)⟩
    | succ i =>
      rw [show position + (i + 1) + 1 = position + 1 + i + 1 by omega]
      exact ih hat

end

/-! ## The commit phase -/

section

/-- How a committed attempt stands to a lower one.  The mark tells that it has read what a lower
attempt wrote. -/
structure Compatible (lower higher : AriaAttempt × Bool) : Prop where
  writes : ∀ key ∈ sortedWriteKeys higher.1.delta.writeSet,
    key ∉ sortedWriteKeys lower.1.delta.writeSet
  unread : higher.2 = false → ∀ key ∈ sortedWriteKeys lower.1.delta.writeSet,
    key ∉ uniqueReadKeys higher.1.delta.readSet
  unseen : higher.2 = true → lower.1.delta.writeSet.len ≠ 0 →
    ∀ key ∈ sortedWriteKeys higher.1.delta.writeSet, key ∉ uniqueReadKeys lower.1.delta.readSet

variable {e : AriaExecutor} {table : AriaReservationTable} {limit position : Nat}

lemma sortedWriteKeys_eq_nil {writes : GoMap String String} (h : writes.len = 0) :
    sortedWriteKeys writes = [] := by
  refine eq_nil_iff_forall_not_mem.2 fun key hkey => ?_
  obtain ⟨v, hv⟩ := mem_sortedKeys.1 (mem_filter.1 hkey).1
  rw [find_eq_none_of_len h] at hv
  cases hv

variable {attempt : AriaAttempt}

lemma reserves_of_deferral (h : deferral e table position attempt = none)
    (hwrs : attempt.delta.writeSet.len ≠ 0) : reserves attempt = true := by
  unfold deferral at h
  cases hretry : attempt.retryReason with
  | some reason => simp [hretry] at h
  | none => simp [reserves, hretry, failedWithoutWrites, hwrs]

lemma conflict_of_deferral (h : deferral e table position attempt = none)
    (hwrs : attempt.delta.writeSet.len ≠ 0) {c : AriaConflict}
    (hc : analyzeConflict attempt (position + 1) table = c) :
    c.waw = false ∧ (c.raw = true → c.war = false) := by
  unfold deferral at h
  rw [hc] at h
  cases hretry : attempt.retryReason with
  | some reason => simp [hretry] at h
  | none =>
    rw [hretry] at h
    simp only [failedWithoutWrites, hwrs, decide_false, Bool.false_and, Bool.and_false,
      Bool.false_eq_true, if_false, ite_eq_left_iff, reduceCtorEq, imp_false, not_not] at h
    revert h
    cases e.reordering <;> cases c.waw <;> cases c.raw <;> cases c.war <;> decide

lemma compatible_of_deferral {lower : AriaAttempt} {mark : Bool}
    (hheld : lower.delta.writeSet.len ≠ 0 → HeldKeys table position lower)
    (h : deferral e table position attempt = none) :
    Compatible (lower, mark) (attempt, (analyzeConflict attempt (position + 1) table).raw) := by
  -- a lower attempt without writes has no write keys at all
  by_cases hlower : lower.delta.writeSet.len = 0
  · exact ⟨by simp [sortedWriteKeys_eq_nil hlower], by simp [sortedWriteKeys_eq_nil hlower],
      fun _ hne => absurd hlower hne⟩
  have hkeys := hheld hlower
  have hunread : (analyzeConflict attempt (position + 1) table).raw = false →
      ∀ key ∈ sortedWriteKeys lower.delta.writeSet, key ∉ uniqueReadKeys attempt.delta.readSet :=
    fun hraw key hkey => not_mem_of_not_reservedBelow hraw (hkeys.writes key hkey) (by omega)
  by_cases hwrs : attempt.delta.writeSet.len = 0
  · exact ⟨by simp [sortedWriteKeys_eq_nil hwrs], hunread, by simp [sortedWriteKeys_eq_nil hwrs]⟩
  obtain ⟨hwaw, hwar⟩ := conflict_of_deferral h hwrs rfl
  refine ⟨?_, hunread, ?_⟩
  · intro key hkey hlow
    exact not_mem_of_not_reservedBelow hwaw (hkeys.writes key hlow) (by omega) hkey
  · intro hraw _ key hkey hlow
    exact not_mem_of_not_reservedBelow (hwar hraw) (hkeys.reads key hlow) (by omega) hkey

/-- What the commit phase keeps: the committed attempts can be marked so that they are
compatible. -/
structure Marked (table : AriaReservationTable) (position : Nat) (committed : List AriaAttempt) :
    Prop where
  held : ∀ a ∈ committed, a.delta.writeSet.len ≠ 0 → HeldKeys table position a
  marks : ∃ marked : List (AriaAttempt × Bool), marked.map Prod.fst = committed ∧
    marked.Pairwise Compatible

variable {attempts committed : List AriaAttempt} {split : EpochSplit}

lemma Marked.skip (h : Marked table position committed) :
    Marked table (position + 1) committed := by
  refine ⟨fun a ha hwrs => ?_, h.marks⟩
  have hold := h.held a ha hwrs
  exact ⟨fun key hkey => (hold.reads key hkey).le (by omega),
    fun key hkey => (hold.writes key hkey).le (by omega)⟩

lemma Marked.commit (h : Marked table position committed)
    (hheld : reserves attempt = true → HeldKeys table (position + 1) attempt)
    (hcom : deferral e table position attempt = none) :
    Marked table (position + 1) (committed ++ [attempt]) := by
  refine ⟨?_, ?_⟩
  · intro a ha hwrs
    rcases mem_append.1 ha with ha | ha
    · exact h.skip.held a ha hwrs
    · rw [mem_singleton.1 ha] at hwrs ⊢
      exact hheld (reserves_of_deferral hcom hwrs)
  · obtain ⟨marked, hmap, hpair⟩ := h.marks
    refine ⟨marked ++ [(attempt, (analyzeConflict attempt (position + 1) table).raw)], ?_, ?_⟩
    · simp [hmap]
    · rw [pairwise_append]
      refine ⟨hpair, pairwise_singleton _ _, ?_⟩
      intro a ha c hc
      rw [mem_singleton.1 hc]
      have hmem : a.1 ∈ committed := hmap ▸ mem_map_of_mem ha
      exact compatible_of_deferral (h.held a.1 hmem) hcom

lemma marked_commitPhase (h : Marked table position split.committed)
    (hheld : ∀ i a, attempts[i]? = some a → reserves a = true →
      HeldKeys table (position + i + 1) a) :
    ∃ last, Marked table last (commitPhase e table limit position split attempts).committed := by
  induction attempts generalizing position split with
  | nil => exact ⟨position, h⟩
  | cons a attempts ih =>
    refine ih ?_ ?_
    · split
      · exact h.skip
      split
      · next hcom => exact h.commit (hheld 0 a rfl) hcom
      · exact h.skip
    · intro i c hc hres
      rw [show position + 1 + i + 1 = position + (i + 1) + 1 by omega]
      exact hheld (i + 1) c hc hres

/-- `a` and `b` divide the elements of `l` without changing their order. -/
structure OrderedPartition {α : Type} (l a b : List α) : Prop where
  left : a.Sublist l
  right : b.Sublist l
  perm : (a ++ b).Perm l

lemma commitPhase_partition {done : List AriaAttempt}
    (h : OrderedPartition done split.committed (split.deferred.map Prod.fst)) :
    OrderedPartition (done ++ attempts)
    (commitPhase e table limit position split attempts).committed
      ((commitPhase e table limit position split attempts).deferred.map Prod.fst) := by
  induction attempts generalizing position split done with
  | nil => simpa [commitPhase] using h
  | cons a attempts ih =>
    have hdefer : ∀ reason, OrderedPartition (done ++ [a]) split.committed
        ((split.deferred ++ [(a, reason)]).map Prod.fst) := by
      intro reason
      rw [map_append]
      refine ⟨h.left.trans (sublist_append_left _ _), h.right.append (.refl _), ?_⟩
      rw [← append_assoc]
      exact h.perm.append_right _
    have hcom :
        OrderedPartition (done ++ [a]) (split.committed ++ [a]) (split.deferred.map Prod.fst) := by
      refine ⟨h.left.append (.refl _), h.right.trans (sublist_append_left _ _), ?_⟩
      rw [append_assoc]
      refine (List.Perm.append_left _ perm_append_comm).trans ?_
      rw [← append_assoc]
      exact h.perm.append_right _
    rw [show done ++ a :: attempts = (done ++ [a]) ++ attempts by simp]
    refine ih ?_
    split
    · exact hdefer _
    split
    · exact hcom
    · exact hdefer _

end

/-! ## A serial order -/

section

def touched (a : AriaAttempt) : List String :=
  a.delta.readSet.map ReadObservation.key ++ a.delta.writeSet.sortedKeys

/-- No two keys that the attempts touch are spellings of one physical key. -/
def SpelledOnce (shardID : String) (attempts : List AriaAttempt) : Prop :=
  ∀ a ∈ attempts, ∀ a' ∈ attempts, ∀ key ∈ touched a, ∀ key' ∈ touched a',
    qualified shardID key = qualified shardID key' → key = key'

instance (shardID : String) (attempts : List AriaAttempt) :
    Decidable (SpelledOnce shardID attempts) :=
  inferInstanceAs (Decidable (∀ a ∈ attempts, ∀ a' ∈ attempts, ∀ key ∈ touched a,
    ∀ key' ∈ touched a', qualified shardID key = qualified shardID key' → key = key'))

abbrev Entry := (AriaAttempt × Bool) × TxDelta

/-- Entries that write nothing come first; the others go to the two ends by their mark. -/
def serializationOrder (entries : List Entry) : List Entry :=
  entries.filter (fun x => x.1.1.delta.writeSet.len = 0) ++
    Serial.deal (fun x => x.1.2) (entries.filter fun x => x.1.1.delta.writeSet.len ≠ 0)

lemma serializationOrder_perm (entries : List Entry) :
    (serializationOrder entries).Perm entries := by
  refine (List.Perm.append_left _ (deal_perm _)).trans ?_
  simpa using filter_append_perm (fun x : Entry => x.1.1.delta.writeSet.len = 0) entries

variable {digests : Digests} {e : AriaExecutor} {b : Block} {base : Snapshot}

def FromSnapshot (digests : Digests) (e : AriaExecutor) (b : Block) (base : Snapshot)
    (a : AriaAttempt) : Prop :=
  attempt digests e b base a.index a.tx = a

variable {a : AriaAttempt}

section

variable (h : FromSnapshot digests e b base a)

include h

lemma FromSnapshot.writeSet :
    a.delta.writeSet = (txOutcome digests e.defaultInitialBalance b base a.tx).2.writes := by
  rw [← h]
  rfl

lemma FromSnapshot.receipt : a.delta.receipt =
      Receipt.of b a.tx (txOutcome digests e.defaultInitialBalance b base a.tx).1 := by
  rw [← h]
  rfl

lemma FromSnapshot.txID : a.delta.txID = a.tx.txID := by
  rw [← h]
  rfl

lemma FromSnapshot.mem_uniqueReadKeys {r : ReadRecord String String}
    (hr : r ∈ (txOutcome digests e.defaultInitialBalance b base a.tx).2.reads) :
    r.key ∈ uniqueReadKeys a.delta.readSet ∧ r.key ∈ touched a := by
  have hne : r.key ≠ "" :=
    (Prog.exec_uses (proper_executeTx digests e.defaultInitialBalance b.shardID a.tx)
      (by simp) (by simp)).1 r hr
  have hobs : observe "state_snapshot_overlay_local_write" r ∈ a.delta.readSet := by
    rw [← h]
    exact mem_map_of_mem hr
  have hkey : r.key ∈ a.delta.readSet.map ReadObservation.key :=
    mem_map_of_mem (f := ReadObservation.key) hobs
  refine ⟨?_, mem_append_left _ hkey⟩
  rw [uniqueReadKeys, mem_insertionSort, mem_dedup, mem_filter]
  exact ⟨hkey, by simpa using hne⟩

lemma FromSnapshot.mem_sortedWriteKeys {key value : String}
    (hkey : a.delta.writeSet.find key = some value) :
    key ∈ sortedWriteKeys a.delta.writeSet ∧ key ∈ touched a := by
  have hkey' := hkey
  rw [h.writeSet] at hkey'
  have hne : key ≠ "" :=
    (Prog.exec_uses (proper_executeTx digests e.defaultInitialBalance b.shardID a.tx)
      (by simp) (by simp)).2 key value hkey'
  have hmem := mem_sortedKeys.2 ⟨value, hkey⟩
  refine ⟨?_, mem_append_right _ hmem⟩
  rw [sortedWriteKeys, mem_filter]
  exact ⟨hmem, by simpa using hne⟩

end

lemma overlooks_serializationOrder {entries : List Entry}
    (hsnap : ∀ x ∈ entries, FromSnapshot digests e b base x.1.1)
    (hspell : SpelledOnce b.shardID (entries.map fun x => x.1.1))
    (hpair : entries.Pairwise fun x y => Compatible x.1 y.1) :
    ((serializationOrder entries).map fun x => x.1.1.tx).Pairwise (Overlooks (overlayKey b.shardID)
        (executeTx digests e.defaultInitialBalance b.shardID) base) := by
  set overlooks := Overlooks (overlayKey b.shardID)
    (executeTx digests e.defaultInitialBalance b.shardID) base
  have hoverlook : ∀ x ∈ entries, ∀ y ∈ entries, (∀ key ∈ sortedWriteKeys x.1.1.delta.writeSet,
        key ∉ uniqueReadKeys y.1.1.delta.readSet) →
      overlooks x.1.1.tx y.1.1.tx := by
    intro x hx y hy hkeys r hr _ key value hkey hsame
    rw [← (hsnap x hx).writeSet] at hkey
    obtain ⟨hmem, htouch⟩ := (hsnap x hx).mem_sortedWriteKeys hkey
    obtain ⟨hread, htouch'⟩ := (hsnap y hy).mem_uniqueReadKeys hr
    have heq := hspell _ (mem_map_of_mem hx) _ (mem_map_of_mem hy) _ htouch _ htouch' hsame
    exact hkeys key hmem (heq ▸ hread)
  rw [pairwise_map, serializationOrder, pairwise_append]
  have hwriteless : ∀ x ∈ entries.filter fun x => x.1.1.delta.writeSet.len = 0,
      ∀ y ∈ entries, overlooks x.1.1.tx y.1.1.tx := by
    intro x hx y hy
    rw [mem_filter] at hx
    refine hoverlook x hx.1 y hy ?_
    simp [sortedWriteKeys_eq_nil (of_decide_eq_true hx.2)]
  refine ⟨?_, ?_, ?_⟩
  · refine List.Pairwise.imp_of_mem ?_ (pairwise_of_forall (R := fun _ _ => True) fun _ _ =>
      trivial)
    intro x y hx hy _
    exact hwriteless x hx y (mem_filter.1 hy).1
  · -- among the writers, the marks put every attempt on the right side of the lower ones
    have hwriters : (entries.filter fun x => x.1.1.delta.writeSet.len ≠ 0).Pairwise fun x y =>
        x ∈ entries ∧ y ∈ entries ∧ x.1.1.delta.writeSet.len ≠ 0 ∧ Compatible x.1 y.1 := by
      refine List.Pairwise.imp_of_mem ?_ (hpair.filter _)
      intro x y hx hy hxy
      rw [mem_filter] at hx hy
      exact ⟨hx.1, hy.1, of_decide_eq_true hx.2, hxy⟩
    refine pairwise_deal hwriters ?_ ?_
    · rintro x y ⟨hx, hy, hwrs, hxy⟩ hmark
      exact hoverlook y hy x hx (hxy.unseen hmark hwrs)
    · rintro x y ⟨hx, hy, -, hxy⟩ hmark
      exact hoverlook x hx y hy (hxy.unread hmark)
  · intro x hx y hy
    have hy' := (deal_perm _).mem_iff.1 hy
    exact hwriteless x hx y (mem_filter.1 hy').1

end

/-! ## Serializability -/

section

variable (digests : Digests) (root : (String → Option String) → String) (e : AriaExecutor)

/-- Some order of transactions, executed serially over `base`, has the write sets and receipts that
go with the transactions, state roots aside, and leads to the state `final`. -/
def Serializable (b : Block) (base : Snapshot) (entries : List (SignedTransaction × TxDelta))
    (final : Snapshot) : Prop :=
  ∃ order : List (SignedTransaction × TxDelta), order.Perm entries ∧
    (serialExecuteBlock digests root e.defaultInitialBalance
      { b with txList := order.map Prod.fst } base).txDeltas.map TxDelta.effect =
        order.map (fun entry => entry.2.effect) ∧
    ∀ key, (serialExecuteBlock digests root e.defaultInitialBalance
      { b with txList := order.map Prod.fst } base).stateUpdates.find key = final.find key

/-- The same with the state roots in the receipts. -/
def SerializableWithRoots (b : Block) (base : Snapshot)
    (entries : List (SignedTransaction × TxDelta)) (final : Snapshot) : Prop :=
  ∃ order : List (SignedTransaction × TxDelta), order.Perm entries ∧
    (serialExecuteBlock digests root e.defaultInitialBalance
      { b with txList := order.map Prod.fst } base).txDeltas.map
        (fun delta => (delta.writeSet, delta.receipt)) =
        order.map (fun entry => (entry.2.writeSet, entry.2.receipt)) ∧
    ∀ key, (serialExecuteBlock digests root e.defaultInitialBalance
      { b with txList := order.map Prod.fst } base).stateUpdates.find key = final.find key

variable {digests root e} {b : Block} {base : Snapshot}

/-- The delta of an attempt after materialization in block `b`. -/
def Materialized (b : Block) (a : AriaAttempt) (delta : TxDelta) : Prop :=
  delta.effect = (a.delta.writeSet, { a.delta.receipt with
    blockHash := b.blockHash, height := b.height, stateRootAfterTx := "" })

variable {entries : List Entry} {b₀ : Block} {deltas : List TxDelta}

lemma apart_of_compatible (hsnap : ∀ x ∈ entries, FromSnapshot digests e b base x.1.1)
    (hspell : SpelledOnce b.shardID (entries.map fun x => x.1.1))
    (hpair : entries.Pairwise fun x y => Compatible x.1 y.1) :
    entries.Pairwise (Apart (overlayKey b.shardID) fun x : Entry => x.1.1.delta.writeSet) := by
  refine List.Pairwise.imp_of_mem ?_ hpair
  intro x y hx hy hxy key value key' value' hkey hkey' hsame
  obtain ⟨hmem, htouch⟩ := (hsnap x hx).mem_sortedWriteKeys hkey
  obtain ⟨hmem', htouch'⟩ := (hsnap y hy).mem_sortedWriteKeys hkey'
  have heq := hspell _ (mem_map_of_mem hx) _ (mem_map_of_mem hy) _ htouch _ htouch' hsame
  exact hxy.writes key' hmem' (heq ▸ hmem)

lemma serializable_of_compatible (hshard : b₀.shardID = b.shardID)
    (hsnap : ∀ x ∈ entries, FromSnapshot digests e b₀ base x.1.1)
    (hspell : SpelledOnce b.shardID (entries.map fun x => x.1.1))
    (hpair : entries.Pairwise fun x y => Compatible x.1 y.1)
    (hmaterialized : ∀ x ∈ entries, Materialized b x.1.1 x.2) :
    Serializable digests root e b base (entries.map fun x => (x.1.1.tx, x.2))
      (applyAll (overlayKey b.shardID) (fun x : Entry => x.1.1.delta.writeSet) entries base) := by
  have hperm := serializationOrder_perm entries
  have hserial := serialFrom_eq (overlooks_serializationOrder hsnap (hshard ▸ hspell) hpair)
  rw [hshard] at hserial
  have hsnap' : ∀ x ∈ serializationOrder entries, FromSnapshot digests e b₀ base x.1.1 :=
    fun x hx => hsnap x (hperm.mem_iff.1 hx)
  have hitems : ((serializationOrder entries).map fun x => (x.1.1.tx, x.2)).map Prod.fst =
      (serializationOrder entries).map fun x => x.1.1.tx := by
    simp
  refine ⟨(serializationOrder entries).map fun x => (x.1.1.tx, x.2), hperm.map _, ?_, ?_⟩
  · -- every transaction does in its turn what it did over the snapshot
    rw [hitems, (serialExecuteBlock_eq base _).2, hserial, zipWith_map_right,
      zipWith_self, map_map, map_map]
    refine map_congr_left fun x hx => ?_
    have hmat := hmaterialized x (hperm.mem_iff.1 hx)
    have hfrom := hsnap' x hx
    simp only [Function.comp_apply]
    rw [hmat, hfrom.writeSet, hfrom.receipt]
    simp only [txOutcome, hshard]
    rfl
  · -- the write sets are apart, so the order in which they are applied does not matter
    intro key
    have hapart := apart_of_compatible hsnap (hshard ▸ hspell) hpair
    rw [hshard] at hapart
    have hown : ∀ x ∈ entries, Spelled (overlayKey b.shardID)
        (fun x : Entry => x.1.1.delta.writeSet) x := by
      intro x hx k v k' v' hk hk' hsame
      exact hspell _ (mem_map_of_mem hx) _ (mem_map_of_mem hx) _
        ((hsnap x hx).mem_sortedWriteKeys hk').2 _ ((hsnap x hx).mem_sortedWriteKeys hk).2
        hsame
    rw [hitems, (serialExecuteBlock_eq base _).1,
      hserial, ← find_applyAll_perm hapart hown hperm key]
    simp only [applyAll, foldl_map]
    refine congrArg (fun store : Snapshot => store.find key) ?_
    refine foldl_ext _ _ _ fun store x hx => ?_
    rw [(hsnap' x hx).writeSet]
    simp only [txOutcome, hshard]

/-! ## Epochs -/

abbrev commitAll (shardID : String) (attempts : List AriaAttempt) (working : Snapshot) : Snapshot :=
  Serial.applyAll (overlayKey shardID) (fun a : AriaAttempt => a.delta.writeSet) attempts working

variable {committed : List AriaAttempt} {working : Snapshot}

lemma materializeLoop_eq {index : Nat}
    (hids : ∀ a ∈ committed, a.delta.txID = a.tx.txID ∧ a.tx.txID ≠ "") :
    ∃ deltas, materializeLoop root b working index (committed.map AriaAttempt.tx)
        (committed.map AriaAttempt.tx) (committed.map AriaAttempt.delta) =
          .ok (deltas, commitAll b.shardID committed working) ∧
      List.Forall₂ (Materialized b) committed deltas := by
  induction committed generalizing working index with
  | nil => exact ⟨[], rfl, .nil⟩
  | cons a committed ih =>
    obtain ⟨hid, hne⟩ := hids a (by simp)
    rcases @ih (materializeDelta root b working index a.delta).2 (index + 1)
      fun c hc => hids c (mem_cons_of_mem a hc) with ⟨deltas, hloop, hall⟩
    refine ⟨(materializeDelta root b working index a.delta).1 :: deltas, ?_, .cons rfl hall⟩
    simp only [map_cons, materializeLoop, hid, hne, ne_eq, not_true_eq_false, or_self, if_false,
      hloop]
    rfl

lemma materializeCandidateSelection_of_loop {selection : CandidateSelection}
    (hblk : b.txList.length = selection.selected.length)
    (hdelt : selection.selected.length = selection.selectedDeltas.length)
    (hloop : materializeLoop root b base 0 b.txList selection.selected selection.selectedDeltas =
      .ok (deltas, working)) :
    ∃ result, materializeCandidateSelection root b base selection = .ok result ∧
      result.txDeltas = deltas ∧ result.stateUpdates = working := by
  unfold materializeCandidateSelection
  rw [if_neg (by simp [hblk, hdelt]), hloop]
  exact ⟨_, rfl, rfl, rfl⟩

lemma applyCommitted_eq (hhead : ∀ a ∈ committed,
      a.delta.receipt.blockHash = b.blockHash ∧ a.delta.receipt.height = b.height) :
    (applyCommitted root b working committed).2 = commitAll b.shardID committed working ∧
      List.Forall₂ (Materialized b) committed
        ((applyCommitted root b working committed).1.map Prod.snd) := by
  induction committed generalizing working with
  | nil => exact ⟨rfl, .nil⟩
  | cons a committed ih =>
    rcases @ih (applyWrites (ariaQualifiedKey b.shardID) a.delta.writeSet working)
      fun c hc => hhead c (mem_cons_of_mem a hc) with ⟨hst, hall⟩
    obtain ⟨hhash, hht⟩ := hhead a (by simp)
    refine ⟨hst, .cons ?_ hall⟩
    simp only [Materialized, TxDelta.effect, ← hhash, ← hht]

lemma serializable_of_marked {attempts : List AriaAttempt} {table : AriaReservationTable}
    {last : Nat} (hshard : b₀.shardID = b.shardID)
    (hsnap : ∀ a ∈ attempts, FromSnapshot digests e b₀ base a)
    (hspell : SpelledOnce b.shardID attempts) (hsub : committed ⊆ attempts)
    (hmarked : Marked table last committed)
    (hall : List.Forall₂ (Materialized b) committed deltas) :
    Serializable digests root e b base ((committed.map AriaAttempt.tx).zip deltas)
      (commitAll b.shardID committed base) := by
  obtain ⟨marked, hmap, hpair⟩ := hmarked.marks
  have hlen : marked.length = deltas.length := by
    rw [← hall.length_eq, ← hmap, length_map]
  have hfst : (marked.zip deltas).map Prod.fst = marked := map_fst_zip hlen.le
  have hatt : (marked.zip deltas).map (fun x => x.1.1) = committed := by
    rw [← hmap]
    conv_rhs => rw [← hfst, map_map]
    rfl
  have hmem : ∀ x ∈ marked.zip deltas, x.1.1 ∈ committed := by
    intro x hx
    rw [← hatt]
    exact mem_map_of_mem hx
  have hents : (committed.map AriaAttempt.tx).zip deltas =
      (marked.zip deltas).map fun x => (x.1.1.tx, x.2) := by
    rw [← hmap, map_map, zip_map_left]
    rfl
  have hst : commitAll b.shardID committed base =
      applyAll (overlayKey b.shardID) (fun x : Entry => x.1.1.delta.writeSet)
        (marked.zip deltas) base := by
    rw [← hatt]
    simp only [commitAll, applyAll, foldl_map]
  rw [hents, hst]
  refine serializable_of_compatible hshard ?_ ?_ ?_ ?_
  · exact fun x hx => hsnap _ (hsub (hmem x hx))
  · rw [hatt]
    exact fun a ha a' ha' => hspell a (hsub ha) a' (hsub ha')
  · rw [← hfst, pairwise_map] at hpair
    exact hpair
  · intro x hx
    rw [← hmap, forall₂_map_left_iff, forall₂_iff_zip] at hall
    exact hall.2 hx

end

section Epochs

variable {digests : Digests} {root : (String → Option String) → String} {e : AriaExecutor}
  {b : Block} {working : Snapshot} {pending : Pending} {limit : Nat}

lemma fromSnapshot_executeEpoch {a : AriaAttempt}
    (h : a ∈ executeEpoch digests e b working pending) : FromSnapshot digests e b working a := by
  obtain ⟨entry, -, rfl⟩ := mem_map.1 h
  rfl

lemma marked_epoch (attempts : List AriaAttempt) : ∃ last, Marked (buildReservations attempts) last
      (commitPhase e (buildReservations attempts) limit 0 {} attempts).committed := by
  refine marked_commitPhase ⟨by simp, [], rfl, .nil⟩ ?_
  intro i a ha hres
  exact heldKeys_of_reserves ha hres

lemma partition_epoch (attempts : List AriaAttempt) : OrderedPartition attempts
      (commitPhase e (buildReservations attempts) limit 0 {} attempts).committed
      ((commitPhase e (buildReservations attempts) limit 0 {} attempts).deferred.map Prod.fst) := by
  have h : OrderedPartition ([] : List AriaAttempt) ({} : EpochSplit).committed
      (({} : EpochSplit).deferred.map Prod.fst) := ⟨.slnil, .slnil, .nil⟩
  simpa using commitPhase_partition h

lemma OrderedPartition.map {α β : Type} {l a b : List α} (h : OrderedPartition l a b) (f : α → β) :
    OrderedPartition (l.map f) (a.map f) (b.map f) :=
  ⟨h.left.map f, h.right.map f, by simpa using h.perm.map f⟩

/-! ## The two uses of an epoch -/

variable (digests root e)

/-- The leader's selection divides the candidates in their order, and the block of the selected ones
materializes to something serializable. -/
def SelectionSerializable (shardID : String) (height : Nat) (candidates : List SignedTransaction)
    (base : Snapshot) (limit : Int) : Prop :=
  let selection := selectCandidateTransactions digests e shardID height candidates base limit
  OrderedPartition (allPending candidates) (selection.committedIndexes.zip selection.selected)
      (selection.deferredIndexes.zip selection.deferred) ∧
    ((∀ item ∈ candidates, item.txID ≠ "") → ∀ b : Block, b.shardID = shardID →
      b.txList = selection.selected →
      ∃ result, materializeCandidateSelection root b base selection = .ok result ∧
        Serializable digests root e b base (selection.selected.zip result.txDeltas)
          result.stateUpdates)

/-- An epoch of a block divides the pending transactions in their order, and what it commits is
serializable. -/
def EpochSerializable (b : Block) (working : Snapshot) (pending : Pending) : Prop :=
  let split := epochSplit digests e b working pending
  OrderedPartition pending (split.committed.map fun a => (a.index, a.tx)) (nextPending split) ∧
    Serializable digests root e b working ((split.committed.map AriaAttempt.tx).zip
        ((applyCommitted root b working split.committed).1.map Prod.snd))
      (applyCommitted root b working split.committed).2

variable {digests root e}

lemma epochSerializable_of_spelledOnce
    (hspell : SpelledOnce b.shardID (executeEpoch digests e b working pending)) :
    EpochSerializable digests root e b working pending := by
  let split := epochSplit digests e b working pending
  have hpart : OrderedPartition _ split.committed (split.deferred.map Prod.fst) := partition_epoch _
  refine ⟨?_, ?_⟩
  · have h := hpart.map fun a => (a.index, a.tx)
    simpa [executeEpoch, attempt, nextPending, Function.comp_def] using h
  · have hhead : ∀ a ∈ split.committed, a.delta.receipt.blockHash = b.blockHash ∧
        a.delta.receipt.height = b.height := by
      intro a ha
      rw [(fromSnapshot_executeEpoch (hpart.left.subset ha)).receipt]
      exact ⟨rfl, rfl⟩
    obtain ⟨last, hmarked⟩ : ∃ last, Marked _ last split.committed := marked_epoch _
    obtain ⟨hst, hall⟩ : (applyCommitted root b working _).2 = _ ∧ _ := applyCommitted_eq hhead
    rw [hst]
    exact serializable_of_marked rfl (fun a ha => fromSnapshot_executeEpoch ha) hspell
      hpart.left.subset hmarked hall

lemma selectionSerializable_of_spelledOnce {shardID : String} {height : Nat}
    {candidates : List SignedTransaction} {base : Snapshot} {limit : Int}
    (hspell : SpelledOnce shardID (executeEpoch digests e
      { shardID := shardID, height := height, txList :=
        candidates } base (allPending candidates))) :
    SelectionSerializable digests root e shardID height candidates base limit := by
  let split := selectionSplit digests e shardID height candidates base limit
  have hpart : OrderedPartition _ split.committed (split.deferred.map Prod.fst) := partition_epoch _
  refine ⟨?_, ?_⟩
  · have h := hpart.map fun a => (a.index, a.tx)
    simpa [executeEpoch, attempt, selectCandidateTransactions, zip_map', Function.comp_def] using h
  · intro hids b hshard htxs
    have hsnap : ∀ a ∈ split.committed,
        FromSnapshot digests e { shardID := shardID, height := height, txList :=
          candidates } base a :=
      fun a ha => fromSnapshot_executeEpoch (hpart.left.subset ha)
    have hids' : ∀ a ∈ split.committed, a.delta.txID = a.tx.txID ∧ a.tx.txID ≠ "" := by
      intro a ha
      refine ⟨(hsnap a ha).txID, hids a.tx ?_⟩
      obtain ⟨entry, hent, rfl⟩ := mem_map.1 (hpart.left.subset ha)
      obtain ⟨pair, hpair, rfl⟩ := mem_map.1 hent
      exact fst_mem_of_mem_zipIdx hpair
    obtain ⟨last, hmarked⟩ : ∃ last, Marked _ last split.committed := marked_epoch _
    obtain ⟨deltas, hloop, hall⟩ : ∃ deltas, materializeLoop root b base 0 _ _ _ =
        .ok (deltas, _) ∧ _ := materializeLoop_eq hids'
    obtain ⟨result, hok, hdelt, hst⟩ := materializeCandidateSelection_of_loop (by rw [htxs])
      (by simp [selectCandidateTransactions]) (by rw [htxs]; exact hloop)
    refine ⟨result, hok, ?_⟩
    rw [hdelt, hst]
    exact serializable_of_marked hshard.symm (fun a ha => fromSnapshot_executeEpoch ha)
      (hshard ▸ hspell) hpart.left.subset hmarked hall

/-- Whatever Aria commits in one epoch is serializable, whether the leader selects it for a block or
a block executes epoch by epoch. -/
theorem committed_serializable : (∀ shardID height candidates base limit,
      SpelledOnce shardID (executeEpoch digests e
        { shardID := shardID, height := height, txList := candidates } base
        (allPending candidates)) →
      SelectionSerializable digests root e shardID height candidates base limit) ∧
    ∀ b working pending, SpelledOnce b.shardID (executeEpoch digests e b working pending) →
      EpochSerializable digests root e b working pending :=
  ⟨fun _ _ _ _ _ => selectionSerializable_of_spelledOnce,
    fun _ _ _ => epochSerializable_of_spelledOnce⟩

end Epochs

/-! ## A late transfer -/

section

def plainDigests : Digests where
  directAccess logicalTxID key semantics previous :=
    "direct(" ++ logicalTxID ++ "," ++ key ++ "," ++ semantics ++ "," ++ previous ++ ")"
  bytesTarget logicalTxID key payload semantics :=
    "bytes(" ++ logicalTxID ++ "," ++ key ++ "," ++ payload ++ "," ++ semantics ++ ")"

def transferBase : Snapshot :=
  [("s::balance:a", "100"), ("s::nonce:a", "3"), ("s::balance:b", "0"), ("s::nonce:b", "0")].foldl
    (fun m entry => m.put entry.1 entry.2) ∅

def transfer (txID : String) (nonce : Nat) : SignedTransaction :=
  { txID := txID, sender := "a", receiver := "b", nonce := nonce, value := 10 }

def lateBlock : Block :=
  { shardID := "s", height := 1, txList := [transfer "t1" 3, transfer "t2" 1] }

def lateSelection : CandidateSelection :=
  selectCandidateTransactions plainDigests {} "s" 1 lateBlock.txList transferBase 0

theorem committed_serializable_lateBlock : (SpelledOnce "s" (executeEpoch plainDigests {}
        { shardID := "s", height := 1, txList := lateBlock.txList } transferBase
        (allPending lateBlock.txList)) ∧
      SelectionSerializable plainDigests (fun find => (find "s::nonce:a").getD "") {} "s" 1
        lateBlock.txList transferBase 0) ∧
    SpelledOnce "s"
      (executeEpoch plainDigests {} lateBlock transferBase (allPending lateBlock.txList)) ∧
      EpochSerializable plainDigests (fun find => (find "s::nonce:a").getD "") {} lateBlock
        transferBase (allPending lateBlock.txList) :=
  ⟨⟨by decide, committed_serializable.1 "s" 1 lateBlock.txList transferBase 0 (by decide)⟩,
    by decide, committed_serializable.2 lateBlock transferBase _ (by decide)⟩

def transferAfter : Snapshot :=
  Serial.applyWrites (overlayKey "s")
    ((lateSelection.selectedDeltas.map TxDelta.writeSet).headD ∅) transferBase

lemma eq_or_eq_of_perm_pair {α : Type} {l : List α} {x y : α} (h : l.Perm [x, y]) :
    l = [x, y] ∨ l = [y, x] := by
  match l, h.length_eq with
  | [u, v], _ =>
    rcases mem_pair.1 (h.mem_iff.1 (mem_cons_self : u ∈ [u, v])) with rfl | rfl
    · exact Or.inl (congrArg (u :: ·) (perm_singleton.1 h.cons_inv))
    · have h' := (h.trans (List.Perm.swap u x [])).cons_inv
      exact Or.inr (congrArg (u :: ·) (perm_singleton.1 h'))

abbrev report (delta : TxDelta) : Option TxError × String :=
  (delta.receipt.error, delta.receipt.stateRootAfterTx)

lemma materialized_reports (root : (String → Option String) → String) :
    ∃ result, materializeCandidateSelection root lateBlock transferBase lateSelection = .ok result ∧
      result.txDeltas.map report = [(none, root transferAfter.find),
        (some (.nonceMismatch 3 1), root transferAfter.find)] :=
  ⟨_, rfl, rfl⟩

lemma serial_reports_late_first (root : (String → Option String) → String) :
    (serialExecuteBlock plainDigests root 1000000
      { lateBlock with txList := [transfer "t2" 1, transfer "t1" 3] } transferBase).txDeltas.map
    report =
      [(some (.nonceMismatch 3 1), root transferBase.find), (none, root transferAfter.find)] := by
  rfl

lemma serial_errors_in_order (root : (String → Option String) → String) :
    (serialExecuteBlock plainDigests root 1000000
      { lateBlock with txList := [transfer "t1" 3, transfer "t2" 1] } transferBase).txDeltas.map
        (fun delta => delta.receipt.error) = [none, some (.nonceMismatch 4 1)] := by
  have heffects : (serialExecuteBlock plainDigests root 1000000
      { lateBlock with txList := [transfer "t1" 3, transfer "t2" 1] } transferBase).txDeltas.map
        TxDelta.effect = _ := (serialExecuteBlock_eq transferBase _).2
  have herrors := congrArg (List.map fun effect => effect.2.error) heffects
  refine herrors.trans ?_
  decide

/-- The failed transfer must come first in a serial order, where it leaves the old state root in its
receipt.  Materialization in candidate order writes the new one. -/
lemma not_serializableWithRoots_of_root_ne :
    ∀ root : (String → Option String) → String, root transferBase.find ≠ root transferAfter.find →
      ∃ result, materializeCandidateSelection root lateBlock transferBase lateSelection =
        .ok result ∧ ¬ SerializableWithRoots plainDigests root {} lateBlock transferBase
          (lateSelection.selected.zip result.txDeltas) result.stateUpdates := by
  intro root hroot
  obtain ⟨result, hok, hrep⟩ := materialized_reports root
  refine ⟨result, hok, ?_⟩
  rintro ⟨order, hperm, heffect, -⟩
  have hsel : lateSelection.selected = [transfer "t1" 3, transfer "t2" 1] := by
    decide
  obtain ⟨d₁, rest, hdelt, -, hrest⟩ := map_eq_cons_iff.1 hrep
  obtain ⟨d₂, last, rfl, hreport, hnone⟩ := map_eq_cons_iff.1 hrest
  rw [hdelt] at hperm
  have hmatch := congrArg (List.map fun effect : GoMap String String × Receipt =>
    (effect.2.error, effect.2.stateRootAfterTx)) heffect
  rw [map_map] at hmatch
  rcases eq_or_eq_of_perm_pair hperm with rfl | rfl
  · have herrors := congrArg (List.map Prod.fst) hmatch
    rw [map_map] at herrors
    have hsecond := (serial_errors_in_order root).symm.trans herrors
    simp [(Prod.mk.inj hreport).1] at hsecond
  · have hfirst := (serial_reports_late_first root).symm.trans hmatch
    simp [(Prod.mk.inj hreport).2, hroot] at hfirst

theorem not_serializableWithRoots_lateBlock :
    ∃ result, materializeCandidateSelection (fun find => (find "s::nonce:a").getD "") lateBlock
        transferBase lateSelection = .ok result ∧
      ¬ SerializableWithRoots plainDigests (fun find => (find "s::nonce:a").getD "") {} lateBlock
        transferBase (lateSelection.selected.zip result.txDeltas) result.stateUpdates :=
  not_serializableWithRoots_of_root_ne _ (by decide)

end

end ChainLab.Execution.Aria
