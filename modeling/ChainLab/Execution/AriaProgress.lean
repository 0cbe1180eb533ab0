import ChainLab.Execution.AriaSerializable

/-!
# Aria finishes a block

An epoch commits the first of its attempts that has no nonce gap, since nothing is reserved below
it. A transaction whose predecessor has failed for good keeps its gap and stops the block.
-/

namespace ChainLab.Execution.Aria

open List

/-! ## Progress of an epoch -/

section Epoch

variable {e : AriaExecutor} {table : AriaReservationTable} {n position : Nat}

/-- No key is reserved for a number below `n`. -/
def FreeBelow (n : Nat) (table : GoMap String Nat) : Prop :=
  ∀ key, table.get key = 0 ∨ n ≤ table.get key

lemma FreeBelow.foldl {m : GoMap String Nat} {tid : Nat} (h : FreeBelow n m) (hn : n ≤ tid)
    (keys : List String) : FreeBelow n (keys.foldl (reserve tid) m) := by
  refine foldlRecOn (motive := FreeBelow n) keys _ h fun m h key _ k => ?_
  unfold reserve
  split
  · rw [GoMap.get_put]
    split
    · exact .inr hn
    · exact h k
  · exact h k

variable {attempts : List AriaAttempt}

lemma freeBelow_buildReservationsFrom
    (h : FreeBelow n table.minReader ∧ FreeBelow n table.minWriter) (hn : n ≤ position + 1) :
    FreeBelow n (buildReservationsFrom table position attempts).minReader ∧
      FreeBelow n (buildReservationsFrom table position attempts).minWriter := by
  induction attempts generalizing table position with
  | nil => exact h
  | cons a attempts ih =>
    refine ih ?_ (by omega)
    split
    · exact ⟨h.1.foldl hn _, h.2.foldl hn _⟩
    · exact h

lemma FreeBelow.not_reservedBelow {m : GoMap String Nat} (h : FreeBelow n m) (keys : List String) :
    reservedBelow m n keys = false := by
  refine any_eq_false.2 fun key _ => ?_
  rcases h key with hzero | hle
  · simp [hzero]
  · simp [hle]

variable {limit : Nat} {split : EpochSplit}

lemma commitPhase_committed_ne_nil (h : split.committed ≠ []) :
    (commitPhase e table limit position split attempts).committed ≠ [] := by
  induction attempts generalizing position split with
  | nil => exact h
  | cons a attempts ih =>
    refine ih ?_
    split
    · exact h
    split
    · simp
    · exact h

/-- An attempt with a nonce gap reserves nothing, and nothing is reserved below the first one
without. -/
lemma commitPhase_committed_eq_nil (hlimit : 0 < limit) (hsplit : split.committed = []) :
    (commitPhase e (buildReservationsFrom {} position attempts) limit position split
      attempts).committed = [] ↔ ∀ a ∈ attempts, a.retryReason ≠ none := by
  induction attempts generalizing position split with
  | nil => simpa [commitPhase] using hsplit
  | cons a attempts ih =>
    rw [commitPhase, if_neg (by simp [hsplit, hlimit.ne']), forall_mem_cons]
    cases hretry : a.retryReason with
    | none =>
      have hfree : FreeBelow (position + 1)
          (buildReservationsFrom {} position (a :: attempts)).minReader ∧ _ :=
        freeBelow_buildReservationsFrom ⟨fun _ => .inl rfl, fun _ => .inl rfl⟩ le_rfl
      have hcms : deferral e (buildReservationsFrom {} position (a :: attempts)) position a =
          none := by
        simp [deferral, hretry, analyzeConflict, hfree.1.not_reservedBelow,
          hfree.2.not_reservedBelow]
      rw [hcms]
      exact iff_of_false (commitPhase_committed_ne_nil (by simp)) fun h => h.1 rfl
    | some reason =>
      have hdefers : deferral e (buildReservationsFrom {} position (a :: attempts)) position a =
          some reason := by simp [deferral, hretry]
      rw [hdefers, buildReservationsFrom, if_neg (by simp [reserves, hretry])]
      refine (ih ?_).trans (and_iff_right (Option.some_ne_none reason)).symm
      exact hsplit

end Epoch

/-! ## Progress of a block -/

section Block

variable (digests : Digests) (root : (String → Option String) → String) (e : AriaExecutor)
    (b : Block)

/-- The state and the pending transactions after `n` epochs. -/
def epochFrom : (n : Nat) → Snapshot → Pending → Snapshot × Pending
  | 0, working, pending => (working, pending)
  | n + 1, working, pending =>
    let split := epochSplit digests e b working pending
    epochFrom n (applyCommitted root b working split.committed).2 (nextPending split)

/-- Some pending transaction has no nonce gap in the state. -/
def Moves (working : Snapshot) (pending : Pending) : Prop :=
  ∃ entry ∈ pending, (attempt digests e b working entry.1 entry.2).retryReason = none

/-- No epoch of the block starts with nonce gaps only. -/
def NeverStuck (working : Snapshot) (pending : Pending) : Prop :=
  ∀ n, (epochFrom digests root e b n working pending).2 ≠ [] →
    Moves digests e b (epochFrom digests root e b n working pending).1
      (epochFrom digests root e b n working pending).2

/-- The block is executed, each of its transactions becomes final once, and one epoch for each of
them is enough. -/
def Finishes (base : Snapshot) : Prop :=
  (∃ final working, epochLoop digests root e b (epochBound e b) b.txList.length 1 base
      (allPending b.txList) [] = .ok (final, working) ∧
    (final.map Prod.fst).Perm (range b.txList.length)) ∧
  ∃ result, executeBlock digests root e b base = .ok result ∧
    result.txDeltas.length = b.txList.length

variable {digests root e b} {working : Snapshot} {pending : Pending}

lemma epochSplit_committed_eq_nil (hne : pending ≠ []) :
    (epochSplit digests e b working pending).committed = [] ↔
      ¬ Moves digests e b working pending := by
  have hatt : executeEpoch digests e b working pending ≠ [] := by simpa [executeEpoch] using hne
  rw [epochSplit, buildReservations, commitPhase_committed_eq_nil (length_pos_of_ne_nil hatt) rfl]
  simp only [executeEpoch, Moves, forall_mem_map, not_exists, not_and, ne_eq]

lemma neverStuck_iff : NeverStuck digests root e b working pending ↔
    (pending ≠ [] → Moves digests e b working pending) ∧
      NeverStuck digests root e b (epochFrom digests root e b 1 working pending).1
        (epochFrom digests root e b 1 working pending).2 := by
  refine ⟨fun h => ⟨h 0, fun n => h (n + 1)⟩, fun h n => ?_⟩
  cases n with
  | zero => exact h.1
  | succ n => exact h.2 n

lemma neverStuck_nil (h : pending = []) : NeverStuck digests root e b working pending := by
  subst h
  intro n
  induction n generalizing working with
  | zero => exact fun h => absurd rfl h
  | succ n ih => exact ih

/-- The transactions of an epoch commit or wait for the next one. -/
lemma nextPending_perm (working : Snapshot) (pending : Pending) :
    ((epochSplit digests e b working pending).committed.map AriaAttempt.index ++
      (nextPending (epochSplit digests e b working pending)).map Prod.fst).Perm
    (pending.map Prod.fst) := by
  set split := epochSplit digests e b working pending
  have hpart : OrderedPartition (executeEpoch digests e b working pending) split.committed
      (split.deferred.map Prod.fst) := partition_epoch _
  simpa [nextPending, executeEpoch, attempt, Function.comp_def]
    using (hpart.map AriaAttempt.index).perm

lemma applyCommitted_indexes (working : Snapshot) (committed : List AriaAttempt) :
    (applyCommitted root b working committed).1.map Prod.fst = committed.map AriaAttempt.index := by
  induction committed generalizing working with
  | nil => rfl
  | cons a committed ih => simp [applyCommitted, ih]

variable {final : List (Nat × TxDelta)}

lemma epochLoop_ok_iff {limit left epoch : Nat} (hleft : pending.length ≤ left) :
    (∃ out, epochLoop digests root e b limit left epoch working pending final = .ok out) ↔
      NeverStuck digests root e b working pending := by
  induction left generalizing epoch working pending final with
  | zero =>
    have hnil : pending = [] := length_eq_zero_iff.1 (Nat.le_zero.1 hleft)
    exact iff_of_true ⟨_, by rw [hnil]; rfl⟩ (neverStuck_nil hnil)
  | succ left ih =>
    by_cases hnil : pending = []
    · exact iff_of_true ⟨_, by rw [hnil]; rfl⟩ (neverStuck_nil hnil)
    rw [epochLoop.eq_3 _ _ _ _ _ _ _ _ _ _ hnil, neverStuck_iff]
    by_cases hmoves : Moves digests e b working pending
    · have hcomm := mt (epochSplit_committed_eq_nil hnil).1 (not_not.2 hmoves)
      have hlen := (@nextPending_perm digests e b working pending).length_eq
      have hpos := length_pos_of_ne_nil hcomm
      simp only [length_append, length_map] at hlen
      simp only [if_neg hcomm, hmoves, implies_true, true_and]
      exact ih (by omega)
    · rw [if_pos ((epochSplit_committed_eq_nil hnil).2 hmoves)]
      simp [hmoves, hnil]

lemma epochLoop_indexes {limit left epoch : Nat} {out : List (Nat × TxDelta) × Snapshot}
    (h : epochLoop digests root e b limit left epoch working pending final = .ok out) :
    (out.1.map Prod.fst).Perm (final.map Prod.fst ++ pending.map Prod.fst) := by
  induction left generalizing epoch working pending final with
  | zero =>
    cases pending with
    | nil => cases h; simp
    | cons entry pending => simp [epochLoop] at h
  | succ left ih =>
    by_cases hnil : pending = []
    · subst hnil
      cases h
      simp
    rw [epochLoop.eq_3 _ _ _ _ _ _ _ _ _ _ hnil] at h
    split at h
    · cases h
    refine (ih h).trans ?_
    rw [map_append, append_assoc, applyCommitted_indexes]
    exact (nextPending_perm working pending).append_left _

lemma exists_find_foldl_put {m : GoMap Nat TxDelta} {index : Nat}
    (h : index ∈ final.map Prod.fst ∨ ∃ delta, m.find index = some delta) :
    ∃ delta, (final.foldl (fun m entry => m.put entry.1 entry.2) m).find index = some delta := by
  induction final generalizing m with
  | nil => simpa using h
  | cons entry final ih =>
    refine ih ?_
    rw [GoMap.find_put]
    by_cases heq : index = entry.1
    · exact .inr ⟨_, if_pos heq⟩
    · simpa [heq] using h

/-- A block is finished exactly if none of its epochs starts with nonce gaps only. -/
theorem block_finishes_iff (base : Snapshot) (hlimit : e.maximumEpochs ≤ 0) :
    Finishes digests root e b base ↔ NeverStuck digests root e b base (allPending b.txList) := by
  have hlength : (allPending b.txList).length = b.txList.length := by simp [allPending]
  have hindexes : (allPending b.txList).map Prod.fst = range b.txList.length := by
    simp [allPending, Function.comp_def, zipIdx_map_snd, range_eq_range']
  have hloop : ∀ left, (allPending b.txList).length ≤ left →
      ((∃ out, epochLoop digests root e b (epochBound e b) left 1 base (allPending b.txList) [] =
        .ok out) ↔ NeverStuck digests root e b base (allPending b.txList)) :=
    fun left => epochLoop_ok_iff
  refine ⟨fun h => ?_, fun h => ⟨?_, ?_⟩⟩
  · rcases h.1 with ⟨final, working, hok, -⟩
    exact (hloop _ hlength.le).1 ⟨_, hok⟩
  · rcases (hloop _ hlength.le).2 h with ⟨⟨final, working⟩, hok⟩
    exact ⟨final, working, hok, by simpa [hindexes] using epochLoop_indexes hok⟩
  · have hbound : epochBound e b = b.txList.length + 1 := if_pos hlimit
    rcases (hloop (epochBound e b) (by omega)).2 h with ⟨⟨final, working⟩, hok⟩
    have hfound : ∀ index ∈ range b.txList.length, ∃ delta,
        (final.foldl (fun m entry => m.put entry.1 entry.2) (∅ : GoMap Nat TxDelta)).find index =
          some delta := by
      intro index hindex
      refine exists_find_foldl_put (.inl ?_)
      rw [(epochLoop_indexes hok).mem_iff, hindexes]
      exact hindex
    have hnone : (range b.txList.length).find? (fun index =>
        ((final.foldl (fun m entry => m.put entry.1 entry.2) (∅ : GoMap Nat TxDelta)).find
          index).isNone) = none := by
      refine find?_eq_none.2 fun index hindex => ?_
      rcases hfound index hindex with ⟨delta, hdelta⟩
      simp [hdelta]
    unfold executeBlock
    simp only [hok, hnone]
    refine ⟨_, rfl, ?_⟩
    rw [length_filterMap_eq_countP, countP_eq_length.2, length_range]
    intro index hindex
    rcases hfound index hindex with ⟨delta, hdelta⟩
    simp [hdelta]

end Block

/-! ## A predecessor that fails -/

/-- The first transfer is above the balance, so the second one never gets its nonce. -/
def gapBlock : Block :=
  { shardID := "s", height := 1,
    txList := [{ transfer "t1" 3 with value := 200 }, transfer "t2" 4] }

theorem gapBlock_no_progress :
    (executeBlock plainDigests (fun _ => "") {} gapBlock transferBase).map (fun _ => ()) =
      .error ("aria epoch 2 made no progress: pending=t2 " ++
        "reasons=aria_nonce_gap_expected_3_got_4") := by
  decide +kernel

/-- Two transfers of one sender take an epoch each. -/
theorem block_finishes_two_transfers : Finishes plainDigests (fun _ => "") {}
      { gapBlock with txList := [transfer "t1" 3, transfer "t2" 4] } transferBase := by
  refine (block_finishes_iff _ (by decide)).2 ?_
  rw [neverStuck_iff, neverStuck_iff]
  refine ⟨fun _ => ⟨_, mem_cons_self, by decide +kernel⟩,
    fun _ => ⟨(1, transfer "t2" 4), by decide +kernel, by decide +kernel⟩, ?_⟩
  exact neverStuck_nil (by decide +kernel)

end ChainLab.Execution.Aria
