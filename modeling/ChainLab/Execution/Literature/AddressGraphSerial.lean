import ChainLab.Execution.Literature.AddressGraphSort

/-!
# Waves of sequence numbers

The waves of a plan do what its transactions do one by one in serialization order when no two
transactions of a wave conflict.  The sorts of the queues guarantee that unless a later sort moves a
transaction that conflicts with a live one at a key whose queue has been sorted: the transaction may
then get the number of the other one.
-/

namespace ChainLab.Execution.Literature

open List
open BatchSI (PlannedBlock BatchStart)
open Result (bind_eq_ok)
open Proposal (Primitives)

section Serial

variable {T : Type} {body : T → SignedTransaction} {b : PlannedBlock T}

abbrev descriptorsOf (body : T → SignedTransaction) (b : PlannedBlock T) : List (TxAccess T) :=
  b.txList.zipIdx.map (describe body b.shardID)

/-- Planning the candidates never gives another number to a transaction that conflicts with a live
one at a key whose queue was sorted before. -/
def SortsUndisturbed (body : T → SignedTransaction) (candidates : PlannedBlock T) : Prop :=
  Undisturbed (descriptorsOf body candidates) [] (nezhaQueueOrder (descriptorsOf body candidates)).1
    (Nezha.start (descriptorsOf body candidates))

def abortedBy (ds : List (TxAccess T)) (s : Nezha) : List Nat :=
  (List.range ds.length).filter (· ∈ s.aborted)

variable {ds : List (TxAccess T)} {s : Nezha}

lemma mem_active_abortedBy {i : Nat} :
    i ∈ activeVertices (conflictAdjacency ds) (abortedBy ds s) ↔
      i ∈ s.live (List.range ds.length) := by
  rw [mem_activeVertices, length_conflictAdjacency, Nezha.mem_live, mem_range, abortedBy]
  simp only [mem_filter, mem_range, decide_eq_true_eq, not_and]
  exact ⟨fun h => ⟨h.1, h.2 h.1⟩, fun h => ⟨h.1, fun _ => h.2⟩⟩

lemma mem_acgWaves {wave : List Nat} (h : wave ∈ acgWaves ds s) :
    ∃ sequence, wave = (s.live (List.range ds.length)).filter (sequenceOf s · = sequence) := by
  obtain ⟨sequence, -, rfl⟩ := mem_map.1 h
  exact ⟨sequence, rfl⟩

lemma perm_acgWaves : (acgWaves ds s).flatten.Perm (s.live (List.range ds.length)) := by
  have hlive : (s.live (List.range ds.length)).Nodup := nodup_range.filter _
  have hnums : (((s.live (List.range ds.length)).map (sequenceOf s)).dedup.insertionSort
      (· ≤ ·)).Nodup := (perm_insertionSort _ _).nodup_iff.2 (nodup_dedup _)
  refine (perm_ext_iff_of_nodup ?_ hlive).2 fun i => ?_
  · refine nodup_flatten.2 ⟨fun wave hwave => ?_, pairwise_map.2 (hnums.imp ?_)⟩
    · obtain ⟨sequence, rfl⟩ := mem_acgWaves hwave
      exact hlive.filter _
    · intro sequence sequence' hne i hi hi'
      have he : sequenceOf s i = sequence := by simpa using (mem_filter.1 hi).2
      have he' : sequenceOf s i = sequence' := by simpa using (mem_filter.1 hi').2
      exact hne (he.symm.trans he')
  · constructor
    · intro hi
      obtain ⟨wave, hwave, hi⟩ := mem_flatten.1 hi
      obtain ⟨sequence, rfl⟩ := mem_acgWaves hwave
      exact (mem_filter.1 hi).1
    · intro hi
      refine mem_flatten.2 ⟨_, mem_map.2 ⟨sequenceOf s i, ?_, rfl⟩, ?_⟩
      · exact (mem_insertionSort _).2 (mem_dedup.2 (mem_map_of_mem hi))
      · exact mem_filter.2 ⟨hi, by simp⟩

lemma Settled.no_conflict (h : Settled ds (queueKeys ds) s) {wave : List Nat}
    (hwave : wave ∈ acgWaves ds s) {i j : Nat} (hi : i ∈ wave) (hj : j ∈ wave) (hne : i ≠ j) :
    ¬Conflict ds i j := by
  obtain ⟨sequence, rfl⟩ := mem_acgWaves hwave
  obtain ⟨hlive, he⟩ := mem_filter.1 hi
  obtain ⟨hlive', he'⟩ := mem_filter.1 hj
  obtain ⟨hlt, halive⟩ := Nezha.mem_live.1 hlive
  obtain ⟨hlt', halive'⟩ := Nezha.mem_live.1 hlive'
  simp only [decide_eq_true_eq] at he he'
  intro hconf
  exact h.sequenceOf_ne (mem_range.1 hlt) (mem_range.1 hlt') hne halive halive' hconf
    (he.trans he'.symm)

lemma buildACG_eq_ok {p : Primitives} {timing : Nat × Nat} {plan : GraphPlan}
    (h : buildACGPlan p body timing b = .ok plan) :
    literatureAccessDescriptors body b.shardID b.txList = .ok (descriptorsOf body b) ∧
      plan = acgPlanOf p timing b.height (descriptorsOf body b)
        (sortQueues (descriptorsOf body b) (nezhaQueueOrder (descriptorsOf body b)).1
          (Nezha.start (descriptorsOf body b))) := by
  obtain ⟨ds, hds, h⟩ := bind_eq_ok.1 h
  cases h
  obtain rfl := (literatureAccessDescriptors_eq_ok.1 hds).2.2
  exact ⟨hds, rfl⟩

lemma exists_active {items : List T} {aborted : List Nat} (h : Candidates body b.shardID items ds)
    (hblk : Accepts body items ds aborted b) {item : T} (hitem : item ∈ b.txList) :
    ∃ (i : Nat) (hlt : i < items.length), i ∈ activeVertices (conflictAdjacency ds) aborted ∧
      items[i] = item := by
  rw [hblk] at hitem
  obtain ⟨hmem, hnot⟩ := mem_filter.1 hitem
  obtain ⟨i, hlt, rfl⟩ := getElem_of_mem hmem
  refine ⟨i, hlt, mem_activeVertices.2 ⟨?_, fun hin => ?_⟩, rfl⟩
  · rw [length_conflictAdjacency, h.length_eq]
    exact hlt
  · rw [decide_eq_true_eq, ← h.idAt_eq hlt] at hnot
    exact hnot (mem_map_of_mem hin)

/-- No two transactions of one wave conflict at an address. -/
def WavesApart (body : T → SignedTransaction) (b : PlannedBlock T) (waves : List (List String)) :
    Prop :=
  ∀ wave ∈ waves, ∀ item ∈ b.txList, ∀ item' ∈ b.txList, (body item).txID ∈ wave →
    (body item').txID ∈ wave → (body item).txID ≠ (body item').txID →
    ¬ConflictAt b.shardID (SameAddress b.shardID) (body item) (body item')

lemma wavesApart_of_settled {items : List T} (hc : Candidates body b.shardID items ds)
    (hblk : Accepts body items ds (abortedBy ds s) b) (hspell : ConflictsSpelled body b)
    (h : Settled ds (queueKeys ds) s) :
    WavesApart body b ((acgWaves ds s).map fun wave => wave.map (idAt ds)) := by
  intro wave hwave item hitem item' hitem' hin hin' hne hconf
  obtain ⟨indices, hidx, rfl⟩ := mem_map.1 hwave
  obtain ⟨i, hlt, -, rfl⟩ := exists_active hc hblk hitem
  obtain ⟨j, hlt', -, rfl⟩ := exists_active hc hblk hitem'
  -- a name tells the position
  have hmem : ∀ k (hk : k < items.length), (body items[k]).txID ∈ indices.map (idAt ds) →
      k ∈ indices := by
    intro k hk hname
    obtain ⟨v, hv, he⟩ := mem_map.1 hname
    have hlive : v ∈ s.live (List.range ds.length) :=
      perm_acgWaves.mem_iff.1 (mem_flatten.2 ⟨indices, hidx, hv⟩)
    have hv' := hc.lt_of_active (mem_active_abortedBy.2 hlive)
    exact hc.idAt_inj hv' hk (he.trans (hc.idAt_eq hk).symm) ▸ hv
  have hij : i ≠ j := by
    rintro rfl
    exact hne rfl
  refine h.no_conflict hidx (hmem i hlt hin) (hmem j hlt' hin') hij ?_
  exact hc.conflict_of_key hlt hlt' (hspell _ hitem _ hitem' hne hconf)

/-- The waves of an address-conflict-graph plan hold the accepted transactions without a conflict
inside a wave, and, whatever the interleaving of the workers, give the receipts, write sets and
state that these give one by one in serialization order. -/
theorem acg_waves_serial (p : Primitives) (timing : Nat × Nat) (digests : Digests)
    (root : (String → Option String) → String) (workers : Nat) {candidates : PlannedBlock T}
    {plan : GraphPlan} {deferred : List T}
    (hplan : buildACGPlan p body timing candidates = .ok plan)
    (hsplit : splitACGFirstPassCandidates body candidates.txList plan = .ok (b.txList, deferred))
    (hshard : b.shardID = candidates.shardID) (hspelled : ConflictsSpelled body b)
    (hundisturbed : SortsUndisturbed body candidates) (base : Snapshot) :
    plan.serializationOrder.Perm (b.txList.map fun item => (body item).txID) ∧
      WavesApart body b plan.waves ∧
      ∃ order, plan.serializationOrder.map (b.byID body).find = order.map some ∧
        (∃ starts out, ExecutesWaves body digests root workers b base plan.waves starts out) ∧
        ∀ starts out, ExecutesWaves body digests root workers b base plan.waves starts out →
          WavesDeclared body digests b starts → ∃ run, out = .ok run ∧
              run.1.map rootless = (serialRun body digests root b base order).1.map rootless ∧
              run.2 = (serialRun body digests root b base order).2 := by
  obtain ⟨hds, rfl⟩ := buildACG_eq_ok hplan
  have hsettled := settled_of_undisturbed hundisturbed
  generalize sortQueues (descriptorsOf body candidates)
    (nezhaQueueOrder (descriptorsOf body candidates)).1
    (Nezha.start (descriptorsOf body candidates)) = s at hsettled hsplit
  generalize descriptorsOf body candidates = ds at hds hsettled hsplit
  rw [← hshard] at hds
  have hc := Candidates.of_ok hds
  have hblock : Accepts body candidates.txList ds (abortedBy ds s) b := (split_eq_ok hsplit).1
  have hactive : ∀ wave ∈ acgWaves ds s, ∀ i ∈ wave,
      i ∈ activeVertices (conflictAdjacency ds) (abortedBy ds s) := fun wave hwave i hi =>
    mem_active_abortedBy.2 (perm_acgWaves.mem_iff.1 (mem_flatten.2 ⟨wave, hwave, hi⟩))
  have hfound := found_waves hc hblock hactive
  have horder : (acgPlanOf p timing candidates.height ds s).serializationOrder =
      (acgWaves ds s).flatten.map (idAt ds) := map_flatten.symm
  have hflatten : ((acgWaves ds s).map (entriesOf body b ds)).flatten =
      entriesOf body b ds (acgWaves ds s).flatten := filterMap_flatten.symm
  refine ⟨?_, wavesApart_of_settled hc hblock hspelled hsettled,
    entriesOf body b ds (acgWaves ds s).flatten, ?_, ?_, ?_⟩
  · have hlt : ∀ v ∈ abortedBy ds s, v < candidates.txList.length := fun v hv =>
      hc.length_eq ▸ mem_range.1 (mem_filter.1 hv).1
    have hlive : (s.live (List.range ds.length)).Perm
        (activeVertices (conflictAdjacency ds) (abortedBy ds s)) :=
      (perm_ext_iff_of_nodup (nodup_range.filter _) nodup_activeVertices).2
        fun i => mem_active_abortedBy.symm
    rw [horder, hblock, ← hc.map_active hlt]
    exact (perm_acgWaves.trans hlive).map _
  · rw [horder]
    refine map_map.trans ?_
    exact map_find_idAt hc hblock fun i hi => mem_active_abortedBy.2 (perm_acgWaves.mem_iff.1 hi)
  · exact exists_executesWaves base hfound
  · intro starts out hrun hdeclared
    -- conflicts are spelled, so transactions of a wave share no address that one of them writes
    have hindependent : ∀ wave ∈ (acgWaves ds s).map (entriesOf body b ds),
        wave.Pairwise (footprints body b).Independent := by
      intro wave hwave
      obtain ⟨indices, hindices, rfl⟩ := mem_map.1 hwave
      have hdistinct := (nodup_flatten.1 (perm_acgWaves.nodup_iff.2
        (nodup_range.filter _))).1 indices hindices
      refine pairwise_filterMap.2 (hdistinct.imp_of_mem ?_)
      intro i j hi hj hne entry hentry entry' hentry'
      exact independent_of_no_conflict hc hblock hspelled (hactive indices hindices i hi)
        (hactive indices hindices j hj) hne hentry hentry' (hsettled.no_conflict hindices hi hj hne)
    obtain ⟨run, hout, hdeltas, hstate, -⟩ := hrun.serial hfound hindependent hdeclared
    rw [hflatten] at hdeltas hstate
    exact ⟨run, hout, hdeltas, hstate⟩

end Serial

/-! ## A transaction that is moved -/

section

open BatchSI (direct sampleDigests)

def movedBlock : PlannedBlock SignedTransaction :=
  { shardID := "s", height := 1, txList :=
    [direct "t1" [{ key := "a", mode := .write }],
      direct "t2" [{ key := "a", mode := .readWrite }, { key := "b", mode := .readWrite }]] }

def movedEntries : List (SignedTransaction × Nat) := movedBlock.txList.zipIdx

lemma buildACG_sample {b : PlannedBlock SignedTransaction}
    (hds : literatureAccessDescriptors id b.shardID b.txList = .ok (descriptorsOf id b)) :
    buildACGPlan samplePrimitives id (0, 0) b = .ok (acgPlanOf samplePrimitives (0, 0) b.height
      (descriptorsOf id b) (sortQueues (descriptorsOf id b) (nezhaQueueOrder (descriptorsOf id b)).1
        (Nezha.start (descriptorsOf id b)))) := by
  rw [buildACGPlan, hds]
  rfl

/-- The queue of `b` moves the second transaction to the number of the first one. -/
theorem acg_waves_moved : ∃ plan starts run,
    buildACGPlan samplePrimitives id (0, 0) movedBlock = .ok plan ∧
      splitACGFirstPassCandidates id movedBlock.txList plan = .ok (movedBlock.txList, []) ∧
      plan.waves = [["t1", "t2"]] ∧
      plan.serializationOrder.map (movedBlock.byID id).find = movedEntries.map some ∧
      ExecutesWaves id sampleDigests (fun _ => "") 2 movedBlock ∅ plan.waves starts (.ok run) ∧
      WavesDeclared id sampleDigests movedBlock starts ∧
      run.2.find "s::a" ≠
        (serialRun id sampleDigests (fun _ => "") movedBlock ∅ movedEntries).2.find "s::a" := by
  have hdirect : ∀ entry ∈ movedEntries, isDirectAccessTransaction (id entry.1) = true := by
    decide +kernel
  refine ⟨_, [⟨movedEntries, ∅⟩], _, buildACG_sample (by decide +kernel), by decide +kernel,
    by decide +kernel, by decide +kernel,
    .next (by decide +kernel) ((WorkerPool.completes_iff (by decide)).2 rfl) .done, ?_, ?_⟩
  · intro start hstart entry hentry
    rw [mem_singleton.1 hstart] at hentry
    exact accessesDeclared_of_direct (hdirect entry hentry)
  · decide +kernel

/-- The plan of a block in which nobody is moved away from a conflict. -/
def plainACGPlan : GraphPlan :=
  acgPlanOf samplePrimitives (0, 0) plainBlock.height (descriptorsOf id plainBlock)
    (sortQueues (descriptorsOf id plainBlock) (nezhaQueueOrder (descriptorsOf id plainBlock)).1
      (Nezha.start (descriptorsOf id plainBlock)))

theorem acg_waves_serial_plain : ∃ starts out order run,
    ConflictsSpelled id plainBlock ∧ SortsUndisturbed id plainBlock ∧
      buildACGPlan samplePrimitives id (0, 0) plainBlock = .ok plainACGPlan ∧
      plainACGPlan.serializationOrder.map (plainBlock.byID id).find = order.map some ∧
      ExecutesWaves id sampleDigests (fun _ => "") 2 plainBlock ∅ plainACGPlan.waves starts out ∧
      WavesDeclared id sampleDigests plainBlock starts ∧ out = .ok run ∧
      run.1.map rootless = (serialRun id sampleDigests (fun _ => "") plainBlock ∅ order).1.map
        rootless ∧ run.2 = (serialRun id sampleDigests (fun _ => "") plainBlock ∅ order).2 := by
  have hbuild : buildACGPlan samplePrimitives id (0, 0) plainBlock = .ok plainACGPlan :=
    buildACG_sample (by decide +kernel)
  have hsplit : splitACGFirstPassCandidates id plainBlock.txList plainACGPlan =
      .ok (plainBlock.txList, []) := by decide +kernel
  have hundisturbed : SortsUndisturbed id plainBlock := by
    unfold SortsUndisturbed
    decide +kernel
  have hall :=
    acg_waves_serial (b := plainBlock) samplePrimitives (0, 0) sampleDigests (fun _ => "") 2
    hbuild hsplit rfl conflictsSpelled_plainBlock hundisturbed ∅
  obtain ⟨order, horder, -, hserial⟩ := hall.2.2
  have hwaves : plainACGPlan.waves = [["t2", "t3"], ["t1"]] := by decide +kernel
  obtain ⟨out, hrun⟩ := executesWaves_plain
  rw [← hwaves] at hrun
  obtain ⟨run, hout, hdeltas, hstate⟩ := hserial _ _ hrun wavesDeclared_plain
  exact ⟨_, _, order, run, conflictsSpelled_plainBlock, hundisturbed, hbuild, horder, hrun,
    wavesDeclared_plain, hout, hdeltas, hstate⟩

end

end ChainLab.Execution.Literature
