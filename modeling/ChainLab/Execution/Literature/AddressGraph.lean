import ChainLab.Execution.Literature.ConflictGraphSerial

/-!
# The address-conflict-graph planner

`buildACGPlan` has a queue of readers and writers for every key.  `nezhaQueueOrder` ranks the
queues; `nezhaSortInQueue` then gives sequence numbers to the transactions of one queue after the
other and aborts what it cannot order.  Transactions of one sequence number make up a wave.
-/

namespace ChainLab.Execution.Literature

open List
open BatchSI (PlannedBlock)
open Result (bind_eq_ok)
open Proposal (Primitives)

/-! ## The order of the queues -/

section

variable {T : Type} (ds : List (TxAccess T))

def queueKeys : List String :=
  BatchSI.sortedKeys (ds.flatMap fun d => d.readKeys ++ d.writeKeys)

def readOwners (key : String) : List Nat :=
  (List.range ds.length).filter fun i => key ∈ readKeysAt ds i

def queueDeps (key : String) : List String :=
  (queueKeys ds).filter fun other => other ≠ "" ∧ other ≠ key ∧
    ∃ w ∈ writeOwners ds key, other ∈ readKeysAt ds w

structure QueueRank where
  order : List String := []
  indegree : GoMap String Int := ∅

/-- A queue is ranked; the queues that depend on it lose a predecessor. -/
def rankQueue (s : QueueRank) (key : String) : QueueRank :=
  if key ∈ s.order then s
  else
    { order := s.order ++ [key]
      indegree := (queueDeps ds key).foldl (fun degree other =>
        if other ∈ s.order ++ [key] then degree else degree.put other (degree.get other - 1))
          s.indegree }

/-- The first of the queues with the greatest number of dependent queues. -/
def widest (keys : List String) : List String :=
  (keys.foldl (fun best key =>
    match best with
    | none => some key
    | some found =>
      if (queueDeps ds found).length < (queueDeps ds key).length then some key else best)
    none).toList

/-- The queues that come next: those without predecessors, or one of those that have fewest. -/
def nextQueues (s : QueueRank) : List String :=
  let rest := (queueKeys ds).filter (· ∉ s.order)
  let ready := rest.filter (s.indegree.get · = 0)
  if ready = [] then
    widest ds (rest.filter fun key => ∀ other ∈ rest, s.indegree.get key ≤ s.indegree.get other)
  else ready

def rankRounds : Nat → QueueRank → QueueRank
  | 0, s => s
  | rounds + 1, s =>
    if s.order.length < (queueKeys ds).length then
      rankRounds rounds ((nextQueues ds s).foldl (rankQueue ds) s)
    else s

/-- `nezhaQueueOrder`, and the number of dependencies.  A round ranks a queue, so as many rounds as
there are queues suffice. -/
def nezhaQueueOrder : List String × Nat :=
  let start : QueueRank := { indegree := (queueKeys ds).foldl (fun degree key =>
    (queueDeps ds key).foldl (fun degree other => degree.put other (degree.get other + 1)) degree) ∅
      }
  ((rankRounds ds (queueKeys ds).length start).order,
    ((queueKeys ds).map fun key => (queueDeps ds key).length).sum)

variable {ds}

lemma nodup_queueKeys : (queueKeys ds).Nodup :=
  (perm_insertionSort _ _).nodup_iff.2 (nodup_dedup _)

lemma order_foldl_rankQueue {keys : List String} {s : QueueRank} (hnd : keys.Nodup)
    (hnew : ∀ key ∈ keys, key ∉ s.order) :
    (keys.foldl (rankQueue ds) s).order = s.order ++ keys := by
  induction keys generalizing s with
  | nil => simp
  | cons key keys ih =>
    obtain ⟨hnot, hnd⟩ := nodup_cons.1 hnd
    have hkey : key ∉ s.order := hnew key mem_cons_self
    have hstep : (rankQueue ds s key).order = s.order ++ [key] := by
      rw [rankQueue, if_neg hkey]
    rw [foldl_cons, ih hnd, hstep, append_assoc, singleton_append]
    intro other hother hin
    rw [hstep, mem_append, mem_singleton] at hin
    rcases hin with hin | rfl
    · exact hnew other (mem_cons_of_mem _ hother) hin
    · exact hnot hother

lemma widest_spec (ds : List (TxAccess T)) {keys : List String} (h : keys ≠ []) :
    ∃ key ∈ keys, widest ds keys = [key] := by
  cases keys with
  | nil => exact absurd rfl h
  | cons first keys =>
    obtain ⟨best, hbest, he⟩ :=
      foldlRecOn (motive := fun best => ∃ key ∈ first :: keys, best = some key)
      keys (fun best key =>
        match best with
        | none => some key
        | some found =>
          if (queueDeps ds found).length < (queueDeps ds key).length then some key else best)
      ⟨first, mem_cons_self, rfl⟩ (by
        rintro _ ⟨found, hfound, rfl⟩ key hkey
        dsimp only
        split
        · exact ⟨key, mem_cons_of_mem _ hkey, rfl⟩
        · exact ⟨found, hfound, rfl⟩)
    exact ⟨best, hbest, congrArg Option.toList he⟩

lemma nextQueues_spec {s : QueueRank} (h : ∃ key ∈ queueKeys ds, key ∉ s.order) :
    nextQueues ds s ≠ [] ∧ (nextQueues ds s).Nodup ∧
      ∀ key ∈ nextQueues ds s, key ∈ queueKeys ds ∧ key ∉ s.order := by
  have hrest : ∀ key, key ∈ (queueKeys ds).filter (· ∉ s.order) ↔
      key ∈ queueKeys ds ∧ key ∉ s.order := by simp
  unfold nextQueues
  dsimp only
  split
  next =>
    -- a queue with the fewest predecessors exists
    have hleast : ((queueKeys ds).filter (· ∉ s.order)).filter (fun key =>
        ∀ other ∈ (queueKeys ds).filter (· ∉ s.order), s.indegree.get key ≤ s.indegree.get other) ≠
          [] := by
      obtain ⟨key, hkey⟩ := h
      obtain ⟨least, hmem, hmin⟩ := Finset.exists_min_image
        ((queueKeys ds).filter (· ∉ s.order)).toFinset s.indegree.get
        ⟨key, mem_toFinset.2 ((hrest key).2 hkey)⟩
      refine ne_nil_of_mem (mem_filter.2 ⟨mem_toFinset.1 hmem, ?_⟩)
      exact decide_eq_true fun other hother => hmin other (mem_toFinset.2 hother)
    obtain ⟨key, hkey, he⟩ := widest_spec ds hleast
    rw [he]
    refine ⟨cons_ne_nil _ _, nodup_singleton _, fun other hother => ?_⟩
    rw [mem_singleton.1 hother]
    exact (hrest key).1 (mem_filter.1 hkey).1
  next hready =>
    refine ⟨hready, (nodup_queueKeys.filter _).filter _, fun key hkey => ?_⟩
    exact (hrest key).1 (mem_filter.1 hkey).1

lemma rankRounds_spec {rounds : Nat} {s : QueueRank} (hnd : s.order.Nodup)
    (hkeys : ∀ key ∈ s.order, key ∈ queueKeys ds)
    (hrounds : (queueKeys ds).length ≤ s.order.length + rounds) :
    (rankRounds ds rounds s).order.Perm (queueKeys ds) := by
  induction rounds generalizing s with
  | zero =>
    exact (subperm_of_subset hnd hkeys).perm_of_length_le (by simpa using hrounds)
  | succ rounds ih =>
    simp only [rankRounds]
    split
    next hmore =>
      have hsomeLeft : ∃ key ∈ queueKeys ds, key ∉ s.order := by
        by_contra hall
        push Not at hall
        have hle := (subperm_of_subset nodup_queueKeys hall).length_le
        omega
      obtain ⟨hsome, hdist, hnext⟩ := nextQueues_spec hsomeLeft
      have horder : ((nextQueues ds s).foldl (rankQueue ds) s).order = s.order ++ nextQueues ds s :=
        order_foldl_rankQueue hdist fun key hkey => (hnext key hkey).2
      refine ih ?_ ?_ ?_
      · rw [horder]
        exact nodup_append.2 ⟨hnd, hdist, fun a ha b hb he => (hnext b hb).2 (he ▸ ha)⟩
      · rw [horder]
        intro key hkey
        rcases mem_append.1 hkey with hkey | hkey
        · exact hkeys key hkey
        · exact (hnext key hkey).1
      · rw [horder, length_append]
        have hpos := length_pos_iff.2 hsome
        omega
    next hdone =>
      exact (subperm_of_subset hnd hkeys).perm_of_length_le (Nat.le_of_not_lt hdone)

lemma perm_nezhaQueueOrder : (nezhaQueueOrder ds).1.Perm (queueKeys ds) :=
  rankRounds_spec nodup_nil (by simp) (by simp)

end

/-! ## Sequence numbers -/

def nezhaInitialSequence : Nat := 10

/-- What the sort knows of the transactions.  All nodes of a transaction always have one sequence
number, since `nezhaAssignSequence` follows every assignment; zero stands for none. -/
structure Nezha where
  sequence : GoMap Nat Nat := ∅
  aborted : List Nat := []
  assigned : List (Nat × String) := []

def Nezha.live (s : Nezha) (owners : List Nat) : List Nat := owners.filter (· ∉ s.aborted)

structure QueuePass where
  nezha : Nezha
  maxRead : Nat
  maxWrite : Nat

def QueuePass.assign (q : QueuePass) (w sequence : Nat) : QueuePass :=
  { q with
    nezha := { q.nezha with sequence := q.nezha.sequence.put w sequence }
    maxWrite := sequence }

def QueuePass.abort (q : QueuePass) (w : Nat) : QueuePass :=
  { q with nezha := { q.nezha with aborted := q.nezha.aborted ++ [w] } }

section Sorting

variable {T : Type} (ds : List (TxAccess T)) (key : String)

/-- A transaction without keys has its number from the start. -/
def Nezha.start : Nezha :=
  { sequence :=
    ((List.range ds.length).filter fun i => readKeysAt ds i = [] ∧ writeKeysAt ds i = []).foldl
      (fun sequence i => sequence.put i nezhaInitialSequence) ∅ }

/-- The readers of a queue: those without a number get the least one, or the initial one.  The
second result is `maxRead`. -/
def sortReads (s : Nezha) : Nezha × Nat :=
  let readers := s.live (readOwners ds key)
  let sequenced := readers.filter (s.sequence.get · ≠ 0)
  let given := if sequenced = [] then nezhaInitialSequence
    else sequenced.foldl (fun least r => min least (s.sequence.get r)) (2 ^ 30)
  let maxRead := if sequenced = [] then (if readers = [] then 0 else nezhaInitialSequence)
    else sequenced.foldl (fun greatest r => max greatest (s.sequence.get r)) 0
  ({ s with
    sequence := (readers.filter (s.sequence.get · = 0)).foldl (fun m r => m.put r given) s.sequence
    assigned := s.assigned ++ readers.map (·, key) }, maxRead)

section Writers

variable (s : Nezha) (maxRead : Nat)

def sequencedWriters : List Nat :=
  (s.live (writeOwners ds key)).filter (s.sequence.get · ≠ 0)

/-- `tmpSame`: writers below a reader's number that read the key themselves. -/
def tmpSame : List Nat :=
  (sequencedWriters ds key s).filter fun w => s.sequence.get w ≤ maxRead ∧ (w, key) ∈ s.assigned

def lateWriters : List Nat :=
  (sequencedWriters ds key s).filter fun w => s.sequence.get w ≤ maxRead ∧ (w, key) ∉ s.assigned ∧
    ∃ n ∈ s.assigned, n.1 = w

/-- `tmpBySeq`, without the numbers. -/
def placedWriters : List Nat :=
  (sequencedWriters ds key s).filter fun w => maxRead < s.sequence.get w ∨
    ((w, key) ∉ s.assigned ∧ ¬∃ n ∈ s.assigned, n.1 = w)

def placedSequences : List Nat :=
  ((placedWriters ds key s maxRead).map s.sequence.get).dedup.insertionSort (· ≤ ·)

def placedAt (raw : Nat) : List Nat :=
  (placedWriters ds key s maxRead).filter (s.sequence.get · = raw)

end Writers

/-- Of the writers that read the key as well, the first one comes after the readers and the others
are aborted. -/
def placeSame (q : QueuePass) (entry : Nat × Nat) : QueuePass :=
  if entry.1 ∈ q.nezha.aborted then q
  else if entry.2 = 0 then { q.assign entry.1 (q.maxWrite + 1) with maxRead := q.maxWrite + 1 }
  else q.abort entry.1

/-- The first number from `candidate` on that is not in the list. -/
def nextFree (values : List Nat) : Nat → Nat → Nat
  | 0, candidate => candidate
  | fuel + 1, candidate =>
    if candidate ∈ values then nextFree values fuel (candidate + 1) else candidate

def placeNew (values : List Nat) (q : QueuePass) (w : Nat) : QueuePass :=
  if q.nezha.sequence.get w ≠ 0 ∨ w ∈ q.nezha.aborted then q
  else q.assign w (nextFree values values.length (q.maxWrite + 1))

/-- Of the placed writers of a number, the first one keeps it if it is above the readers'. -/
def placeAgain (raw : Nat) (q : QueuePass) (entry : Nat × Nat) : QueuePass :=
  if entry.1 ∈ q.nezha.aborted then q
  else if q.maxRead < raw ∧ entry.2 = 0 then q
  else q.assign entry.1 (q.maxWrite + 1)

def nezhaSortInQueue (s : Nezha) : Nezha :=
  let reads := sortReads ds key s
  let values := placedSequences ds key reads.1 reads.2
  let start : QueuePass :=
    { nezha := { reads.1 with aborted := reads.1.aborted ++ lateWriters ds key reads.1 reads.2 }
      maxRead := reads.2
      maxWrite := if reads.2 = 0 then nezhaInitialSequence - 1 else reads.2 }
  let same := (tmpSame ds key reads.1 reads.2).zipIdx.foldl placeSame start
  let fresh := (writeOwners ds key).foldl (placeNew values) same
  let raised := { fresh with maxWrite := max fresh.maxWrite (values.getLastD 0) }
  (values.foldl (fun q raw =>
    (placedAt ds key reads.1 reads.2 raw).zipIdx.foldl (placeAgain raw) q) raised).nezha

end Sorting

/-! ## The planner -/

section

variable {T : Type} (p : Primitives) (body : T → SignedTransaction)

def sortQueues (ds : List (TxAccess T)) (keys : List String) (s : Nezha) : Nezha :=
  keys.foldl (fun s key => nezhaSortInQueue ds key s) s

def sequenceOf (s : Nezha) (i : Nat) : Nat :=
  if s.sequence.get i = 0 then nezhaInitialSequence else s.sequence.get i

def acgWaves (ds : List (TxAccess T)) (s : Nezha) : List (List Nat) :=
  let live := s.live (List.range ds.length)
  ((live.map (sequenceOf s)).dedup.insertionSort (· ≤ ·)).map fun sequence =>
    live.filter (sequenceOf s · = sequence)

/-- The plan of sorted candidates; `timing` are the measured times. -/
def acgPlanOf (timing : Nat × Nat) (height : Nat) (ds : List (TxAccess T)) (s : Nezha) :
    GraphPlan :=
  let summary := literatureDeclaredAccessSummary p ds
  let aborted := (List.range ds.length).filter (· ∈ s.aborted)
  literatureFinalizePlan p {
    algorithmID := "nezha_acg_hs_official_reference_v1"
    blockHeight := height
    declaredAccessSetDigest := summary.1
    declaredReadKeyCount := summary.2.1
    declaredWriteKeyCount := summary.2.2
    waves := (acgWaves ds s).map fun wave => wave.map (idAt ds)
    abortedTransactionIDs := aborted.map (idAt ds)
    metrics := {
      transactionCount := ds.length
      edgeCount := (nezhaQueueOrder ds).2
      abortCount := aborted.length
      graphConstructionMS := timing.1
      sortingMS := timing.2 }
    candidateTransactionIDs := ds.map TxAccess.txID }

def buildACGPlan (timing : Nat × Nat) (b : PlannedBlock T) : Except String GraphPlan := do
  let items ← literatureAccessDescriptors body b.shardID b.txList
  return acgPlanOf p timing b.height items
    (sortQueues items (nezhaQueueOrder items).1 (Nezha.start items))

def splitACGFirstPassCandidates (items : List T) (plan : GraphPlan) :
    Except String (List T × List T) :=
  splitFirstPassCandidates body "nezha acg first-pass candidate identity mismatch"
    "nezha acg first-pass abort set contains duplicate/empty transaction id"
    "nezha acg first-pass abort set references a transaction outside the candidate block" items plan

end

end ChainLab.Execution.Literature
