import ChainLab.Execution.BatchSI.Coverage
import ChainLab.Execution.BatchSI.Orders

/-!
# Batch-SI is serial execution

The transactions of a batch all read the state in which the batch starts.  Since an address has one
writer in a batch and its readers come before it, no transaction of a batch reads what an earlier
one of the batch writes, as long as it reads no more than it declares.  So the batches of a plan do
what the accepted transactions do one after the other, for every interleaving of the workers.
-/

namespace ChainLab.Execution.BatchSI

open List Result
open TxDescriptor

variable {T : Type} {body : T → SignedTransaction}

/-! ## Plans -/

/-- Descriptors that stand for the transactions of a block. -/
structure Described (body : T → SignedTransaction) (shardID : String) (items : List T)
    (ds : List (TxDescriptor T)) : Prop where
  txID : ∀ d ∈ ds, d.txID = (body d.item).txID
  access : ∀ d ∈ ds, (d.readKeys, d.writeKeys) = declaredAccess (body d.item) shardID
  names : ∀ d ∈ ds, d.txID ≠ ""
  distinct : (ids ds).Nodup
  items : (ds.map TxDescriptor.item).Perm items

lemma trimSpace_empty : Text.trimSpace "" = "" := by decide

variable {acc acc' : Descriptors T} {entry : T × Nat} {ordinals : Option (GoMap String Int)}
  {shardID : String} {b : PlannedBlock T} {config : Config} {items : List (TxDescriptor T)}

lemma addDescriptor_eq_ok (h : addDescriptor body ordinals shardID acc entry = .ok acc') :
    ∃ ordinal, (body entry.1).txID ≠ "" ∧ (body entry.1).txID ∉ acc.seen ∧
      acc'.seen = (body entry.1).txID :: acc.seen ∧
      acc'.out = acc.out ++
        [⟨entry.1, (body entry.1).txID, (declaredAccess (body entry.1) shardID).1,
        (declaredAccess (body entry.1) shardID).2, ordinal⟩] := by
  simp only [addDescriptor, require_bind_eq_ok] at h
  obtain ⟨hname, hseen, h⟩ := h
  obtain ⟨ordinal, -, h⟩ := bind_eq_ok.1 h
  obtain ⟨-, h⟩ := require_bind_eq_ok.1 h
  cases h
  refine ⟨ordinal, ?_, hseen, rfl, rfl⟩
  intro hemp
  rw [hemp] at hname
  exact hname trimSpace_empty

/-- The loop has described the transactions `done`. -/
structure Describing (body : T → SignedTransaction) (shardID : String) (acc : Descriptors T)
    (done : List T) : Prop where
  txID : ∀ d ∈ acc.out, d.txID = (body d.item).txID
  access : ∀ d ∈ acc.out, (d.readKeys, d.writeKeys) = declaredAccess (body d.item) shardID
  names : ∀ d ∈ acc.out, d.txID ≠ ""
  distinct : (ids acc.out).Nodup
  seen : ∀ d ∈ acc.out, d.txID ∈ acc.seen
  items : acc.out.map TxDescriptor.item = done

variable {done : List T} {entries : List (T × Nat)} {digest : PlanCore T → String}
  {txs : List (TxDescriptor T)}

lemma Describing.step (h : Describing body shardID acc done)
    (hstep : addDescriptor body ordinals shardID acc entry = .ok acc') :
    Describing body shardID acc' (done ++ [entry.1]) := by
  obtain ⟨ordinal, hname, hseen, hseen', hout⟩ := addDescriptor_eq_ok hstep
  -- every new fact is an old one, or one about the last descriptor
  have hlast : ∀ P : TxDescriptor T → Prop, (∀ d ∈ acc.out, P d) →
      P ⟨entry.1, (body entry.1).txID, (declaredAccess (body entry.1) shardID).1,
        (declaredAccess (body entry.1) shardID).2, ordinal⟩ → ∀ d ∈ acc'.out, P d := by
    intro P hold hnew
    rw [hout]
    exact forall_mem_append.2 ⟨hold, forall_mem_singleton.2 hnew⟩
  refine ⟨hlast _ h.txID rfl, hlast _ h.access rfl, hlast _ h.names hname, ?_, ?_, ?_⟩
  · rw [hout, ids, map_append, nodup_append]
    refine ⟨h.distinct, by simp, ?_⟩
    intro id hid other hother he
    obtain ⟨d, hd, rfl⟩ := mem_map.1 hid
    simp only [map_cons, map_nil, mem_singleton] at hother
    exact hseen (hother ▸ he ▸ h.seen d hd)
  · rw [hseen']
    exact hlast _ (fun d hd => mem_cons_of_mem _ (h.seen d hd)) mem_cons_self
  · rw [hout, map_append, h.items]
    rfl

lemma describing_foldlM (h : Describing body shardID acc done)
    (hrun : entries.foldlM (addDescriptor body ordinals shardID) acc = .ok acc') :
    Describing body shardID acc' (done ++ entries.map Prod.fst) := by
  induction entries generalizing acc done with
  | nil =>
    cases hrun
    simpa using h
  | cons entry entries ih =>
    rw [foldlM_cons, bind_eq_ok] at hrun
    obtain ⟨mid, hmid, hrest⟩ := hrun
    have hall := ih (h.step hmid) hrest
    simpa using hall

lemma described_of_descriptors {items : List T} {out : List (TxDescriptor T) × GoMap String Int}
    (h : descriptors body items ordinals shardID = .ok out) :
    Described body shardID items out.1 := by
  simp only [descriptors, bind_eq_ok] at h
  obtain ⟨acc, hrun, hout⟩ := h
  cases hout
  have hacc : Describing body shardID acc ([] ++ items.zipIdx.map Prod.fst) :=
    describing_foldlM ⟨by simp, by simp, by simp, by simp, by simp, rfl⟩ hrun
  have hperm := perm_orderedDescriptors acc.out
  refine ⟨fun d hd => hacc.txID d (hperm.mem_iff.1 hd),
    fun d hd => hacc.access d (hperm.mem_iff.1 hd),
    fun d hd => hacc.names d (hperm.mem_iff.1 hd), (hperm.map _).nodup_iff.2 hacc.distinct, ?_⟩
  refine (hperm.map item).trans ?_
  rw [hacc.items]
  simp

lemma build_eq_ok {result : PlanningResult T}
    (h : buildBatchSIPlanWithOrdinals body digest b config ordinals = .ok result) :
    ∃ items table, Described body b.shardID b.txList items ∧
      result = planDescriptors body digest b config.normalized items table := by
  simp only [buildBatchSIPlanWithOrdinals, bind_eq_ok] at h
  obtain ⟨-, -, described, hdesc, hres⟩ := h
  cases hres
  exact ⟨described.1, described.2, described_of_descriptors hdesc, rfl⟩

abbrev accepted (config : Config) (items : List (TxDescriptor T)) : List (TxDescriptor T) :=
  (finalPartitions config (partitions config items).1).flatMap Partition.txs

structure WellOrdered (items : List (TxDescriptor T)) (final : List (Partition T)) : Prop where
  mem : ∀ p ∈ final, ∀ d ∈ p.txs, d ∈ items
  distinct : (ids (final.flatMap Partition.txs)).Nodup
  later : ∀ p ∈ final, p.txs.Pairwise fun a b =>
    ∀ key, key ∈ b.readKeys ∨ key ∈ b.writeKeys → key ∉ a.writeKeys

lemma OneWriter.unique (h : OneWriter txs) {a b : TxDescriptor T} (ha : a ∈ txs) (hb : b ∈ txs)
    (hne : a ≠ b) : ∀ key ∈ a.writeKeys, key ∉ b.writeKeys :=
  have : Std.Symm fun a b : TxDescriptor T => ∀ key ∈ a.writeKeys, key ∉ b.writeKeys :=
    ⟨fun _ _ hab key hb ha => hab key ha hb⟩
  List.Pairwise.forall h ha hb hne

lemma Ordered.later {ordered : List (TxDescriptor T)} (h : Ordered txs ordered)
    (hone : OneWriter txs) : ordered.Pairwise fun a b =>
      ∀ key, key ∈ b.readKeys ∨ key ∈ b.writeKeys → key ∉ a.writeKeys := by
  have hdiffer : ordered.Pairwise fun a b => a.txID ≠ b.txID := pairwise_map.1 h.distinct
  refine (hdiffer.and h.pairwise).imp_of_mem ?_
  rintro a b ha hb ⟨hne, hread⟩ key hkey hwrite
  -- the writers of an address are unique, its other readers come first
  have hnot : key ∉ b.writeKeys :=
    hone.unique (h.mem a ha) (h.mem b hb) (fun he => hne (congrArg _ he)) key hwrite
  rcases hkey with hkey | hkey
  · exact hread key (mem_filter.2 ⟨hkey, by simpa using hnot⟩) hwrite
  · exact hnot hkey

lemma WellSplit.final {split : List (Partition T)} (h : WellSplit items split)
    (hnames : ∀ d ∈ items, d.txID ≠ "") : WellOrdered items (finalPartitions config split) := by
  have hord : ∀ p ∈ split, Ordered p.txs (orderBatch config p.txs).1 := fun p hp =>
    (resolved_orderBatch (h.oneWriter p hp) (h.distinct p hp)
      (fun d hd => hnames d (h.mem p hp d hd)) config).ordered
  -- a batch of the plan is a partition in its order
  have hfinal : ∀ q ∈ finalPartitions config split, ∃ p ∈ split,
      q.txs = (orderBatch config p.txs).1 := by
    intro q hq
    obtain ⟨p, hp, rfl⟩ := mem_map.1 (mem_filter.1 hq).1
    exact ⟨p, hp, rfl⟩
  refine ⟨?_, ?_, ?_⟩
  · intro q hq d hd
    obtain ⟨p, hp, htxs⟩ := hfinal q hq
    exact h.mem p hp d ((hord p hp).mem d (htxs ▸ hd))
  · rw [ids, map_flatMap, nodup_flatMap]
    constructor
    · intro q hq
      obtain ⟨p, hp, htxs⟩ := hfinal q hq
      exact htxs ▸ (hord p hp).distinct
    · refine List.Pairwise.filter _ (pairwise_map.2 (h.apart.imp_of_mem ?_))
      intro p q hp hq hapart id hid hid'
      obtain ⟨d, hd, rfl⟩ := mem_map.1 hid
      obtain ⟨d', hd', he⟩ := mem_map.1 hid'
      exact hapart d ((hord p hp).mem d hd) (mem_map.2 ⟨d', (hord q hq).mem d' hd', he⟩)
  · intro q hq
    obtain ⟨p, hp, htxs⟩ := hfinal q hq
    exact htxs ▸ (hord p hp).later (h.oneWriter p hp)

lemma wellOrdered_of_described {txs : List T} (h : Described body shardID txs items)
    (config : Config) : WellOrdered items (finalPartitions config (partitions config items).1) :=
  (wellSplit_partitions config h.distinct).final h.names

lemma ordered_planDescriptors {ordinals : GoMap String Int} (hdist : (ids items).Nodup)
    (h : WellOrdered items (finalPartitions config (partitions config items).1)) :
    (planDescriptors body digest b config items ordinals).ordered =
      (accepted config items).map item := by
  have hids : (batchesOf (finalPartitions config (partitions config items).1)).flatMap
      Batch.orderedTransactionIDs = ids (accepted config items) := by
    rw [batchesOf, flatMap_map, ids, map_flatMap]
  have hmem : ∀ d ∈ accepted config items, d ∈ items := by
    intro d hd
    obtain ⟨p, hp, hd⟩ := mem_flatMap.1 hd
    exact h.mem p hp d hd
  calc (planDescriptors body digest b config items ordinals).ordered
      = (byIDs items (ids (accepted config items))).map item := by
        rw [← hids]
        rfl
    _ = (accepted config items).map item := by rw [byIDs_ids hdist hmem]

/-! ## Looking up the transactions of a batch -/

lemma find_byID (hdist : (b.txList.map fun item => (body item).txID).Nodup)
    (hent : entry ∈ b.txList.zipIdx) : (b.byID body).find (body entry.1).txID = some entry := by
  have hnd : (b.txList.zipIdx.map fun entry => (body entry.1).txID).Nodup := by
    have hmap : b.txList.zipIdx.map (fun entry => (body entry.1).txID) =
        (b.txList.zipIdx.map Prod.fst).map fun item => (body item).txID := by
      rw [map_map]
      rfl
    rw [hmap, zipIdx_map_fst]
    exact hdist
  exact GoMap.find_foldl_put_mem hent (fun other hother he =>
    inj_on_of_nodup_map hnd hother hent he) ∅

/-! ## Batches one transaction at a time -/

section

variable {digests : Digests} {root : (String → Option String) → String} {e : BatchSIExecutor}
  {b : PlannedBlock T}

/-- Distinct spellings denote distinct addresses, among the declared keys of the block. -/
def SpelledOnce (body : T → SignedTransaction) (b : PlannedBlock T) : Prop :=
  ∀ item ∈ b.txList, ∀ item' ∈ b.txList, ∀ key key', Declares (body item) b.shardID key →
    Declares (body item') b.shardID key' →
    batchSIQualifiedKey b.shardID key = batchSIQualifiedKey b.shardID key' → key = key'

/-- Over a state, the transaction reads no more of it than it declares to access. -/
def ReadsWithin (body : T → SignedTransaction) (digests : Digests) (e : BatchSIExecutor)
    (b : PlannedBlock T) (snapshot : Snapshot) (item : T) : Prop :=
  ∀ r ∈ (txRun body digests e b snapshot item).2.reads, r.own = false →
    Declares (body item) b.shardID r.key

/-- The executed reads lie within the declared accesses. -/
def ReadsDeclared (body : T → SignedTransaction) (digests : Digests) (e : BatchSIExecutor)
    (b : PlannedBlock T) (starts : List (BatchStart T)) : Prop :=
  ∀ start ∈ starts, ∀ entry ∈ start.transactions,
    ReadsWithin body digests e b start.snapshot entry.1

def Later (body : T → SignedTransaction) (b : PlannedBlock T) (a c : T × Nat) : Prop :=
  ∀ key, Declares (body c.1) b.shardID key → key ∉ (declaredAccess (body a.1) b.shardID).2

/-- Two states agree on what a transaction declares. -/
def AgreeOn (body : T → SignedTransaction) (b : PlannedBlock T) (s s' : Snapshot) (item : T) :
    Prop :=
  ∀ key, Declares (body item) b.shardID key →
    s.find (batchSIQualifiedKey b.shardID key) = s'.find (batchSIQualifiedKey b.shardID key)

variable {start working : Snapshot}

lemma executeTransaction_eq {entry : T × Nat} (hreads : ReadsWithin body digests e b start entry.1)
    (hagree : AgreeOn body b working start entry.1) :
    executeTransaction body digests e b working entry =
      executeTransaction body digests e b start entry := by
  have hout : txRun body digests e b working entry.1 = txRun body digests e b start entry.1 :=
    Serial.outcome_eq fun r hr hown => hagree r.key (hreads r hr hown)
  simp only [executeTransaction, hout]

variable {delta : TxDelta} {next : Snapshot}

lemma applyResult_eq_ok {r : TxExecutionResult T}
    (h : applyResult body root b working r = .ok (delta, next)) :
    (∀ key v, r.delta.writeSet.find key = some v →
      key ∈ (declaredAccess (body r.item) b.shardID).2) ∧
      next = Serial.applyWrites (batchSIQualifiedKey b.shardID) r.delta.writeSet working := by
  unfold applyResult at h
  split at h
  next hval =>
    cases h
    refine ⟨fun key v hfind => ?_, rfl⟩
    have hmem := all_eq_true.1 hval key (GoMap.mem_sortedKeys.2 ⟨v, hfind⟩)
    simpa using hmem
  next => cases h

lemma AgreeOn.applyResult {entry other : T × Nat} (hspell : SpelledOnce body b)
    (hent : entry.1 ∈ b.txList) (hother : other.1 ∈ b.txList) (hlater : Later body b entry other)
    (hagree : AgreeOn body b working start other.1)
    (h : applyResult body root b working (executeTransaction body digests e b start entry) =
      .ok (delta, next)) : AgreeOn body b next start other.1 := by
  obtain ⟨hdecl, rfl⟩ := applyResult_eq_ok h
  intro key hkey
  rw [Serial.find_applyWrites_ne, hagree key hkey]
  intro written v hwrote he
  have hmem := hdecl written v hwrote
  exact hlater key hkey (hspell _ hent _ hother _ _ (.inr hmem) hkey he ▸ hmem)

lemma materialize_eq {entries : List (T × Nat)} (hspell : SpelledOnce body b)
    (hmem : ∀ entry ∈ entries, entry.1 ∈ b.txList) (hlater : entries.Pairwise (Later body b))
    (hreads : ∀ entry ∈ entries, ReadsWithin body digests e b start entry.1)
    (hagree : ∀ entry ∈ entries, AgreeOn body b working start entry.1) :
    materialize body root b working (entries.map (executeTransaction body digests e b start)) =
      serialExecute body digests root e b working entries := by
  induction entries generalizing working with
  | nil => rfl
  | cons entry entries ih =>
    rw [pairwise_cons] at hlater
    simp only [map_cons, materialize, serialExecute]
    rw [executeTransaction_eq (hreads entry mem_cons_self) (hagree entry mem_cons_self)]
    cases happly :
      applyResult body root b working (executeTransaction body digests e b start entry) with
    | error err => rfl
    | ok applied =>
      have hagree' : ∀ other ∈ entries, AgreeOn body b applied.2 start other.1 := by
        intro other hother
        have hother' := mem_cons_of_mem entry hother
        exact (hagree other hother').applyResult hspell (hmem entry mem_cons_self)
          (hmem other hother') (hlater.1 other hother) happly
      rw [ok_bind, ok_bind,
        ih (fun other hother => hmem other (mem_cons_of_mem entry hother)) hlater.2
          (fun other hother => hreads other (mem_cons_of_mem entry hother)) hagree']

lemma serialExecute_append (working : Snapshot) (entries rest : List (T × Nat)) :
    serialExecute body digests root e b working (entries ++ rest) = (do
      let run ← serialExecute body digests root e b working entries
      let run' ← serialExecute body digests root e b run.2 rest
      return (run.1 ++ run'.1, run'.2)) := by
  induction entries generalizing working with
  | nil => exact (bind_pure _).symm
  | cons entry entries ih => simp only [cons_append, serialExecute, ih, bind_assoc, pure_bind]

lemma workers_pos (e : BatchSIExecutor) : 0 < e.workers := by
  unfold BatchSIExecutor.workers
  split
  · exact Nat.one_pos
  · exact Nat.lt_of_lt_of_le Nat.one_pos (Nat.le_max_left _ _)

lemma exists_executes (working : Snapshot) (batches : List Batch) :
    ∃ starts out, Executes body digests root e b working batches starts out := by
  induction batches generalizing working with
  | nil => exact ⟨_, _, .done⟩
  | cons batch batches ih =>
    cases htxs : batchTransactions body b batch with
    | error err => exact ⟨_, _, .unknown htxs⟩
    | ok transactions =>
      have hcomp : WorkerPool.Completes (executeTransaction body digests e b working)
          transactions e.workers _ := (WorkerPool.completes_iff (workers_pos e)).2 rfl
      cases hmat : materialize body root b working
          (transactions.map (executeTransaction body digests e b working)) with
      | error err => exact ⟨_, _, .undeclared htxs hcomp hmat⟩
      | ok run =>
        obtain ⟨starts, out, hrest⟩ := ih run.2
        exact ⟨_, _, .next htxs hcomp hmat hrest⟩

/-- Batches whose transactions the block has, and in each of which the transactions may go one after
the other. -/
structure Executable (body : T → SignedTransaction) (b : PlannedBlock T) (batches : List Batch)
    (entries : List (List (T × Nat))) : Prop where
  found : batches.map (batchTransactions body b) = entries.map .ok
  mem : ∀ l ∈ entries, ∀ entry ∈ l, entry.1 ∈ b.txList
  later : ∀ l ∈ entries, l.Pairwise (Later body b)

lemma Executable.cons {batch : Batch} {batches : List Batch} {txs : List (T × Nat)}
    {entries : List (List (T × Nat))} (h : Executable body b (batch :: batches) entries)
    (htxs : batchTransactions body b batch = .ok txs) : ∃ rest, entries = txs :: rest ∧
      (∀ entry ∈ txs, entry.1 ∈ b.txList) ∧ txs.Pairwise (Later body b) ∧
      Executable body b batches rest := by
  obtain ⟨hfound, hmem, hlater⟩ := h
  cases entries with
  | nil => simp at hfound
  | cons l entries =>
    simp only [map_cons, List.cons.injEq, htxs, Except.ok.injEq] at hfound
    obtain ⟨rfl, hfound⟩ := hfound
    exact ⟨entries, rfl, hmem _ mem_cons_self, hlater _ mem_cons_self, hfound,
      fun l hl => hmem l (mem_cons_of_mem _ hl), fun l hl => hlater l (mem_cons_of_mem _ hl)⟩

lemma Executes.eq_serialExecute {batches : List Batch} {starts : List (BatchStart T)}
    {out : Except ExecError (List TxDelta × Snapshot)}
    (h : Executes body digests root e b working batches starts out)
    {entries : List (List (T × Nat))} (hbat : Executable body b batches entries)
    (hspell : SpelledOnce body b) (hreads : ReadsDeclared body digests e b starts) :
    out = serialExecute body digests root e b working entries.flatten := by
  induction h generalizing entries with
  | done =>
    have hnil : entries = [] := by simpa using hbat.found.symm
    rw [hnil]
    rfl
  | unknown herr =>
    obtain ⟨hfound, -, -⟩ := hbat
    cases entries with
    | nil => simp at hfound
    | cons l entries => simp [herr] at hfound
  | undeclared htxs hcomp hmat =>
    obtain ⟨rest, rfl, hmem, hlater, -⟩ := hbat.cons htxs
    rw [(WorkerPool.completes_iff (workers_pos e)).1 hcomp,
      materialize_eq hspell hmem hlater (hreads _ mem_cons_self) fun _ _ _ _ => rfl] at hmat
    rw [flatten_cons, serialExecute_append, hmat]
    rfl
  | next htxs hcomp hmat hrest ih =>
    obtain ⟨rest, rfl, hmem, hlater, hbat⟩ := hbat.cons htxs
    rw [(WorkerPool.completes_iff (workers_pos e)).1 hcomp,
      materialize_eq hspell hmem hlater (hreads _ mem_cons_self) fun _ _ _ _ => rfl] at hmat
    have htail := ih hbat fun start hstart => hreads start (mem_cons_of_mem _ hstart)
    rw [flatten_cons, serialExecute_append, hmat, htail]
    exact map_eq_pure_bind (m := Except ExecError) _ _

/-! ## The batches of a plan -/

abbrev entryOf (body : T → SignedTransaction) (b : PlannedBlock T) (d : TxDescriptor T) : T × Nat :=
  (d.item, ((b.byID body).find d.txID).elim 0 Prod.snd)

lemma executable_plan {candidates : List T} {items : List (TxDescriptor T)}
    {final : List (Partition T)} (hdesc : Described body b.shardID candidates items)
    (h : WellOrdered items final) (hblk : b.txList = (final.flatMap Partition.txs).map item) :
    ∃ entries, Executable body b (batchesOf final) entries ∧ entries.flatten = b.txList.zipIdx := by
  have hmem : ∀ p ∈ final, ∀ d ∈ p.txs, d ∈ final.flatMap Partition.txs :=
    fun p hp d hd => mem_flatMap.2 ⟨p, hp, hd⟩
  have hitems : ∀ d ∈ final.flatMap Partition.txs, d ∈ items := by
    intro d hd
    obtain ⟨p, hp, hd⟩ := mem_flatMap.1 hd
    exact h.mem p hp d hd
  have hdist : (b.txList.map fun item => (body item).txID).Nodup := by
    rw [hblk, map_map]
    have hids := map_congr_left fun d hd => (hdesc.txID d (hitems d hd)).symm
    exact hids ▸ h.distinct
  -- an entry of the block is found under the name of its descriptor
  have hfind : ∀ d ∈ final.flatMap Partition.txs,
      (b.byID body).find d.txID = some (entryOf body b d) := by
    intro d hd
    have hitem : d.item ∈ b.txList.zipIdx.map Prod.fst := by
      rw [zipIdx_map_fst, hblk]
      exact mem_map_of_mem hd
    obtain ⟨entry, hent, he⟩ := mem_map.1 hitem
    have hname : (body entry.1).txID = d.txID := by rw [he, hdesc.txID d (hitems d hd)]
    have hfound := hname ▸ find_byID hdist hent
    rw [entryOf, hfound, ← he]
    rfl
  refine ⟨final.map fun p => p.txs.map (entryOf body b), ⟨?_, ?_, ?_⟩, ?_⟩
  · rw [batchesOf, map_map, map_map]
    refine map_congr_left fun p hp => ?_
    show (p.txs.map txID).mapM _ = _
    rw [mapM_map]
    exact mapM_eq_ok fun d hd => by simp only [Function.comp, hfind d (hmem p hp d hd)]
  · intro l hl entry hent
    obtain ⟨p, hp, rfl⟩ := mem_map.1 hl
    obtain ⟨d, hd, rfl⟩ := mem_map.1 hent
    rw [hblk]
    exact mem_map_of_mem (hmem p hp d hd)
  · intro l hl
    obtain ⟨p, hp, rfl⟩ := mem_map.1 hl
    refine pairwise_map.2 ((h.later p hp).imp_of_mem ?_)
    intro a c ha hc hlater key hkey
    have haccess := hdesc.access a (h.mem p hp a ha)
    have haccess' := hdesc.access c (h.mem p hp c hc)
    rw [← haccess]
    refine hlater key ?_
    rw [Declares, ← haccess'] at hkey
    exact hkey
  · -- positions are looked up for the transactions in the order of the block
    refine map_injective_iff.2 (Option.some_injective _) ?_
    calc (final.map fun p => p.txs.map (entryOf body b)).flatten.map some
        = (final.flatMap Partition.txs).map (fun d => some (entryOf body b d)) := by
          rw [← flatMap_def, ← map_flatMap, map_map]
          rfl
      _ = (final.flatMap Partition.txs).map (fun d => (b.byID body).find (body d.item).txID) :=
          map_congr_left fun d hd => by
            rw [← hdesc.txID d (hitems d hd), hfind d hd]
      _ = b.txList.map fun item => (b.byID body).find (body item).txID := by
          rw [hblk, map_map]
          rfl
      _ = b.txList.zipIdx.map fun entry => (b.byID body).find (body entry.1).txID := by
          rw [← zipIdx_map_fst 0 b.txList, map_map, zipIdx_map_fst]
          rfl
      _ = b.txList.zipIdx.map some := map_congr_left fun entry hent => find_byID hdist hent

/-- The batches of a plan, whatever the interleaving of the workers, do what the accepted
transactions do one after the other: they give the same write sets, receipts and state, or fail
alike. -/
theorem batch_si_serial_equivalent (digests : Digests) (root : (String → Option String) → String)
    (e : BatchSIExecutor) {digest : PlanCore T → String} {candidates : PlannedBlock T}
    {config : Config} {ordinals : Option (GoMap String Int)} {result : PlanningResult T}
    (hplan : buildBatchSIPlanWithOrdinals body digest candidates config ordinals = .ok result)
    (hshard : b.shardID = candidates.shardID) (hblock : b.txList = result.ordered)
    (hspelled : SpelledOnce body b) (base : Snapshot) :
    (∃ starts out, Executes body digests root e b base result.plan.batches starts out) ∧
      ∀ starts out, Executes body digests root e b base result.plan.batches starts out →
        ReadsDeclared body digests e b starts →
          out = serialExecute body digests root e b base b.txList.zipIdx := by
  refine ⟨exists_executes base _, fun starts out hrun hreads => ?_⟩
  obtain ⟨items, table, hdescribed, rfl⟩ := build_eq_ok hplan
  have hordered := wellOrdered_of_described hdescribed config.normalized
  rw [ordered_planDescriptors hdescribed.distinct hordered] at hblock
  obtain ⟨entries, hexecutable, hflatten⟩ := executable_plan (hshard ▸ hdescribed) hordered hblock
  rw [← hflatten]
  exact hrun.eq_serialExecute hexecutable hspelled hreads

end

/-! ## Two writers and a reader -/

section

def sampleDigests : Digests where
  directAccess logicalTxID _ _ previous := logicalTxID ++ "(" ++ previous ++ ")"
  bytesTarget logicalTxID _ _ _ := logicalTxID

def direct (txID : String) (accessList : List AccessItem) : SignedTransaction :=
  { txID := txID, accessList := accessList, accessListSchema := "access_list_v1" }

def firstWriter : SignedTransaction := direct "t1" [{ key := "x", mode := .readWrite }]

def secondWriter : SignedTransaction := direct "t2" [{ key := "x", mode := .readWrite }]

def reader : SignedTransaction :=
  direct "t3" [{ key := "x", mode := .read }, { key := "y", mode := .write }]

def sampleBlock : PlannedBlock SignedTransaction :=
  { shardID := "s", height := 1, txList := [firstWriter, secondWriter, reader] }

/-- The block of the accepted transactions: the reader comes before the first writer, and the second
writer is in a batch of its own. -/
def acceptedBlock : PlannedBlock SignedTransaction :=
  { sampleBlock with txList := [reader, firstWriter, secondWriter] }

def sampleBatches : List Batch :=
  [{ batchNumber := 1, orderedTransactionIDs := ["t3", "t1"] },
    { batchNumber := 2, orderedTransactionIDs := ["t2"] }]

lemma build_sampleBlock :
    (buildBatchSIPlanWithOrdinals id (fun _ => "") sampleBlock {} none).toOption.map
      (fun result => (result.ordered, result.plan.batches)) =
        some (acceptedBlock.txList, sampleBatches) := by
  decide +kernel

lemma spelledOnce_acceptedBlock : SpelledOnce id acceptedBlock := by
  have hkeys : ∀ item ∈ acceptedBlock.txList, ∀ item' ∈ acceptedBlock.txList,
      ∀ key ∈ (declaredAccess (id item) acceptedBlock.shardID).1 ++
        (declaredAccess (id item) acceptedBlock.shardID).2,
      ∀ key' ∈ (declaredAccess (id item') acceptedBlock.shardID).1 ++
        (declaredAccess (id item') acceptedBlock.shardID).2,
        batchSIQualifiedKey acceptedBlock.shardID key = batchSIQualifiedKey acceptedBlock.shardID
          key' →
          key = key' := by decide +kernel
  intro item hitem item' hitem' key key' hkey hkey'
  exact hkeys item hitem item' hitem' key (mem_append.2 hkey) key' (mem_append.2 hkey')

def sampleMiddle : Snapshot :=
  (∅ : Snapshot).put "s::y" "t3()" |>.put "s::x" "t1()"

lemma sample_executes : ∃ out, Executes id sampleDigests (fun _ => "")
    {} acceptedBlock ∅ sampleBatches
      [⟨[(reader, 0), (firstWriter, 1)], ∅⟩, ⟨[(secondWriter, 2)], sampleMiddle⟩] out :=
  ⟨_, .next rfl ((WorkerPool.completes_iff (by decide)).2 rfl) rfl
    (.next rfl ((WorkerPool.completes_iff (by decide)).2 rfl) rfl .done)⟩

lemma sample_readsDeclared : ReadsDeclared id sampleDigests {} acceptedBlock
    [⟨[(reader, 0), (firstWriter, 1)], ∅⟩, ⟨[(secondWriter, 2)], sampleMiddle⟩] := by
  unfold ReadsDeclared ReadsWithin Declares
  decide +kernel

theorem batch_si_serial_equivalent_sample : ∃ result starts out,
    buildBatchSIPlanWithOrdinals id (fun _ => "") sampleBlock {} none = .ok result ∧
      acceptedBlock.txList = result.ordered ∧ SpelledOnce id acceptedBlock ∧
      Executes id sampleDigests (fun _ => "") {} acceptedBlock ∅ result.plan.batches starts out ∧
      ReadsDeclared id sampleDigests {} acceptedBlock starts ∧
      out = serialExecute id sampleDigests (fun _ => "") {} acceptedBlock ∅
        acceptedBlock.txList.zipIdx := by
  have hbuild := build_sampleBlock
  cases hresult : buildBatchSIPlanWithOrdinals id (fun _ => "") sampleBlock {} none with
  | error message => simp [hresult, Except.toOption] at hbuild
  | ok result =>
    simp only [hresult, Except.toOption, Option.map_some, Option.some.injEq, Prod.mk.injEq]
      at hbuild
    obtain ⟨hordered, hbatches⟩ := hbuild
    obtain ⟨out, hrun⟩ := sample_executes
    rw [← hbatches] at hrun
    have hserial := (batch_si_serial_equivalent (b := acceptedBlock) sampleDigests (fun _ => "") {}
      hresult rfl hordered.symm spelledOnce_acceptedBlock ∅).2 _ out hrun sample_readsDeclared
    refine ⟨result, _, out, rfl, hordered.symm, spelledOnce_acceptedBlock, hrun, ?_, hserial⟩
    exact sample_readsDeclared

end

end ChainLab.Execution.BatchSI
