import ChainLab.Execution.Literature.ConflictGraph

/-!
# Conflict-graph waves are serial execution

The planner compares keys as they are spelled, and the executor writes to addresses: a key that
names its shard and the same key without it are two spellings of one address.  Transactions that
conflict at an address only through two spellings have no arc between them, may share a wave, and
then do not see each other.  For blocks without such a pair, the waves of a plan do what the
accepted transactions do one by one in serialization order.
-/

namespace ChainLab.Execution.Literature

open List
open BatchSI (PlannedBlock BatchStart find_byID)
open Proposal (Primitives)

/-! ## Conflicts by key and by address -/

section

variable (shardID : String)

/-- Two transactions access keys that `same` identifies, and one of them writes. -/
def ConflictAt (same : String → String → Prop) (left right : SignedTransaction) : Prop :=
  ∃ key key', same key key' ∧ ((key ∈ (literatureDeclaredAccess left shardID).2 ∧
        key' ∈ (literatureDeclaredAccess right shardID).1) ∨
      (key ∈ (literatureDeclaredAccess left shardID).1 ∧
        key' ∈ (literatureDeclaredAccess right shardID).2) ∨
      (key ∈ (literatureDeclaredAccess left shardID).2 ∧
        key' ∈ (literatureDeclaredAccess right shardID).2))

def SameAddress (key key' : String) : Prop :=
  literatureQualifiedKey shardID key = literatureQualifiedKey shardID key'

/-- Transactions that conflict at an address conflict at a key. -/
def ConflictsSpelled {T : Type} (body : T → SignedTransaction) (b : PlannedBlock T) : Prop :=
  ∀ item ∈ b.txList, ∀ item' ∈ b.txList, (body item).txID ≠ (body item').txID →
    ConflictAt b.shardID (SameAddress b.shardID) (body item) (body item') →
    ConflictAt b.shardID Eq (body item) (body item')

end

section Serial

variable {T : Type} {body : T → SignedTransaction} {b : PlannedBlock T}

lemma independent_of_not_conflict {entry entry' : T × Nat}
    (h : ¬ConflictAt b.shardID (SameAddress b.shardID) (body entry.1) (body entry'.1)) :
    (footprints body b).Independent entry entry' where
  left := by
    rintro _ ⟨key, hkey, rfl⟩ ⟨key', hkey', he⟩
    exact h ⟨key, key', he.symm, .inl ⟨hkey, hkey'⟩⟩
  right := by
    rintro _ ⟨key', hkey', rfl⟩ ⟨key, hkey, he⟩
    exact h ⟨key, key', he, .inr (.inl ⟨hkey, hkey'⟩)⟩
  both := by
    rintro _ ⟨key, hkey, rfl⟩ ⟨key', hkey', he⟩
    exact h ⟨key, key', he.symm, .inr (.inr ⟨hkey, hkey'⟩)⟩

variable {items : List T} {ds : List (TxAccess T)} {aborted : List Nat}

variable {i : Nat} {shardID : String}

lemma Candidates.conflict_of_key (h : Candidates body shardID items ds) {j : Nat}
    (hi : i < items.length) (hj : j < items.length)
    (hconf : ConflictAt shardID Eq (body items[i]) (body items[j])) : Conflict ds i j := by
  obtain ⟨key, _, rfl, hkey⟩ := hconf
  refine ⟨key, ?_⟩
  simp only [writeKeysAt, readKeysAt, h.getElem? hi, h.getElem? hj, Option.elim_some]
  exact hkey

lemma Candidates.lt_of_active (h : Candidates body shardID items ds)
    (hi : i ∈ activeVertices (conflictAdjacency ds) aborted) : i < items.length := by
  have hlt := (mem_activeVertices.1 hi).1
  rwa [length_conflictAdjacency, h.length_eq] at hlt

def Accepts (body : T → SignedTransaction) (items : List T) (ds : List (TxAccess T))
    (aborted : List Nat) (b : PlannedBlock T) : Prop :=
  b.txList = items.filter fun item => (body item).txID ∉ aborted.map (idAt ds)

def entriesOf (body : T → SignedTransaction) (b : PlannedBlock T) (ds : List (TxAccess T))
    (indices : List Nat) : List (T × Nat) :=
  indices.filterMap fun i => (b.byID body).find (idAt ds i)

section Entries

variable (h : Candidates body b.shardID items ds) (hblock : Accepts body items ds aborted b)
include h hblock

variable {i j : Nat} {indices : List Nat} {entry entry' : T × Nat}

lemma find_idAt (hi : i ∈ activeVertices (conflictAdjacency ds) aborted) :
    ∃ (hlt : i < items.length) (k : Nat), items[i] ∈ b.txList ∧
      (b.byID body).find (idAt ds i) = some (items[i], k) := by
  have hlt := h.lt_of_active hi
  have hact := (mem_activeVertices.1 hi).2
  -- its name is not the name of an aborted candidate
  have hname : (body items[i]).txID ∉ aborted.map (idAt ds) := by
    intro hin
    obtain ⟨a, ha, he⟩ := mem_map.1 hin
    by_cases hrange : a < items.length
    · exact hact (h.idAt_inj hrange hlt (he.trans (h.idAt_eq hlt).symm) ▸ ha)
    have hnone : ds[a]? = none := getElem?_eq_none (by rw [h.length_eq]; omega)
    rw [idAt, hnone] at he
    exact h.names items[i] (getElem_mem hlt) he.symm
  have hmem : items[i] ∈ b.txList := by
    rw [hblock]
    exact mem_filter.2 ⟨getElem_mem hlt, by simpa using hname⟩
  have hdist : (b.txList.map fun item => (body item).txID).Nodup := by
    rw [hblock]
    exact h.distinct.sublist (filter_sublist.map _)
  have hent : items[i] ∈ b.txList.zipIdx.map Prod.fst := by
    rw [zipIdx_map_fst]
    exact hmem
  obtain ⟨entry, hent, he⟩ := mem_map.1 hent
  have hfind := find_byID hdist hent
  rw [he, ← h.idAt_eq hlt] at hfind
  exact ⟨hlt, entry.2, hmem, by rw [hfind, ← he]⟩

lemma map_find_idAt (hidx : ∀ i ∈ indices, i ∈ activeVertices (conflictAdjacency ds) aborted) :
    indices.map (fun i => (b.byID body).find (idAt ds i)) =
      (entriesOf body b ds indices).map some := by
  induction indices with
  | nil => rfl
  | cons i indices ih =>
    obtain ⟨hlt, k, -, hfind⟩ := find_idAt h hblock (hidx i mem_cons_self)
    have hrest := ih fun j hj => hidx j (mem_cons_of_mem i hj)
    simp only [map_cons, hrest, entriesOf, filterMap_cons, hfind]

lemma eq_of_find (hi : i ∈ activeVertices (conflictAdjacency ds) aborted)
    (hj : j ∈ activeVertices (conflictAdjacency ds) aborted)
    (hfind : (b.byID body).find (idAt ds i) = some entry)
    (hfind' : (b.byID body).find (idAt ds j) = some entry) : i = j := by
  obtain ⟨hlt, k, -, he⟩ := find_idAt h hblock hi
  obtain ⟨hlt', k', -, he'⟩ := find_idAt h hblock hj
  have hitem : items[i] = items[j] := by
    have hpair := (he.symm.trans hfind).trans (hfind'.symm.trans he')
    exact congrArg Prod.fst (Option.some.inj hpair)
  refine h.idAt_inj hlt hlt' ?_
  rw [h.idAt_eq hlt, h.idAt_eq hlt', hitem]

lemma nodup_entriesOf (hnd : indices.Nodup)
    (hidx : ∀ i ∈ indices, i ∈ activeVertices (conflictAdjacency ds) aborted) :
    (entriesOf body b ds indices).Nodup := by
  refine pairwise_filterMap.2 (hnd.imp_of_mem ?_)
  rintro i j hi hj hne entry hent entry' hent' rfl
  exact hne (eq_of_find h hblock (hidx i hi) (hidx j hj) hent hent')

variable (hspell : ConflictsSpelled body b) (hi : i ∈ activeVertices (conflictAdjacency ds) aborted)
  (hj : j ∈ activeVertices (conflictAdjacency ds) aborted) (hne : i ≠ j)
  (hfind : (b.byID body).find (idAt ds i) = some entry)
  (hfind' : (b.byID body).find (idAt ds j) = some entry')

include hspell hi hj hne hfind hfind'

lemma independent_of_no_conflict (hkey : ¬Conflict ds i j) :
    (footprints body b).Independent entry entry' := by
  obtain ⟨hlt, k, hmem, he⟩ := find_idAt h hblock hi
  obtain ⟨hlt', k', hmem', he'⟩ := find_idAt h hblock hj
  obtain rfl := Option.some.inj (he.symm.trans hfind)
  obtain rfl := Option.some.inj (he'.symm.trans hfind')
  refine independent_of_not_conflict fun hconf => ?_
  have hids : (body items[i]).txID ≠ (body items[j]).txID := by
    rw [← h.idAt_eq hlt, ← h.idAt_eq hlt']
    exact fun heq => hne (h.idAt_inj hlt hlt' heq)
  exact hkey (h.conflict_of_key hlt hlt' (hspell _ hmem _ hmem' hids hconf))

lemma independent_of_no_arc (harc : j ∉ activeArcs (conflictAdjacency ds) aborted i)
    (harc' : i ∉ activeArcs (conflictAdjacency ds) aborted j) :
    (footprints body b).Independent entry entry' := by
  refine independent_of_no_conflict h hblock hspell hi hj hne hfind hfind' fun hkey => ?_
  have hlt := h.lt_of_active hi
  have hlt' := h.lt_of_active hj
  have hlen := h.length_eq
  have hrow := arc_of_conflict (by omega) (by omega) hne hkey
  rw [← getD_conflictAdjacency (by omega), ← getD_conflictAdjacency (by omega)] at hrow
  -- neither of the two was aborted, so the arc is left
  rcases hrow with hrow | hrow
  · exact harc (mem_activeArcs.2 ⟨hrow, (mem_activeVertices.1 hj).2⟩)
  · exact harc' (mem_activeArcs.2 ⟨hrow, (mem_activeVertices.1 hi).2⟩)

end Entries

/-! ## Waves and serialization order -/

section

variable {digests : Digests} {root : (String → Option String) → String} {workers : Nat}
    {r : Resolved}

/-- The arcs between active candidates, as arcs between entries of the block. -/
def EntryArc (body : T → SignedTransaction) (b : PlannedBlock T) (ds : List (TxAccess T))
    (aborted : List Nat) (entry entry' : T × Nat) : Prop :=
  ∃ i ∈ activeVertices (conflictAdjacency ds) aborted,
    ∃ j ∈ activeVertices (conflictAdjacency ds) aborted,
      (b.byID body).find (idAt ds i) = some entry ∧ (b.byID body).find (idAt ds j) = some entry' ∧
      j ∈ activeArcs (conflictAdjacency ds) aborted i

variable (h : Candidates body b.shardID items ds) (hblock : Accepts body items ds aborted b)
include h hblock

lemma pairwise_entriesOf {indices : List Nat}
    (hidx : ∀ i ∈ indices, i ∈ activeVertices (conflictAdjacency ds) aborted)
    (horder : indices.Pairwise fun i j => i ∉ activeArcs (conflictAdjacency ds) aborted j) :
    (entriesOf body b ds indices).Pairwise fun entry entry' =>
      ¬EntryArc body b ds aborted entry' entry := by
  refine pairwise_filterMap.2 (horder.imp_of_mem ?_)
  rintro i j hi hj hij entry hent entry' hent' ⟨j', hj', i', hi', hfind', hfind, harc⟩
  have hi'' := eq_of_find h hblock hi' (hidx i hi) hfind hent
  have hj'' := eq_of_find h hblock hj' (hidx j hj) hfind' hent'
  exact hij (hi'' ▸ hj'' ▸ harc)

lemma found_waves {frontiers : List (List Nat)} (hfront : ∀ frontier ∈ frontiers, ∀ i ∈ frontier,
      i ∈ activeVertices (conflictAdjacency ds) aborted) :
    Found body b (frontiers.map fun frontier => frontier.map (idAt ds))
      (frontiers.map (entriesOf body b ds)) := by
  rw [Found, map_map, map_map]
  refine map_congr_left fun frontier hfron => ?_
  have hmap := map_find_idAt h hblock (hfront frontier hfron)
  rw [Function.comp_apply, Function.comp_apply, ← hmap, map_map]
  rfl

lemma serial_of_resolved (hr : WellResolved ds r) (habort : r.aborted = aborted)
    (hspell : ConflictsSpelled body b) {base : Snapshot} {starts : List (BatchStart T)}
    {out : Except WaveError (List TxDelta × Snapshot)}
    (hrun : ExecutesWaves body digests root workers b base
      (r.frontiers.map fun frontier => frontier.map (idAt ds)) starts out)
    (hdecl : WavesDeclared body digests b starts) :
    ∃ run, out = .ok run ∧ (run.1.map rootless).Perm
        ((serialRun body digests root b base (entriesOf body b ds r.officialOrder)).1.map
          rootless) ∧
      Serial.Same run.2
        (serialRun body digests root b base (entriesOf body b ds r.officialOrder)).2 := by
  subst habort
  have hflat : r.frontiers.flatten.Perm (activeVertices (conflictAdjacency ds) r.aborted) := by
    simpa using hr.layered.perm
  have hact : ∀ frontier ∈ r.frontiers, ∀ i ∈ frontier,
      i ∈ activeVertices (conflictAdjacency ds) r.aborted :=
    fun frontier hfron i hi => hflat.mem_iff.1 (mem_flatten.2 ⟨frontier, hfron, hi⟩)
  have hnd : r.frontiers.flatten.Nodup := hflat.nodup_iff.2 nodup_activeVertices
  -- no two transactions of a wave conflict
  have hwaves : ∀ wave ∈ r.frontiers.map (entriesOf body b ds),
      wave.Pairwise (footprints body b).Independent := by
    intro wave hwave
    obtain ⟨frontier, hfron, rfl⟩ := mem_map.1 hwave
    have hdist := (nodup_flatten.1 hnd).1 frontier hfron
    refine pairwise_filterMap.2 (hdist.imp_of_mem ?_)
    intro i j hi hj hne entry hent entry' hent'
    exact independent_of_no_arc h hblock hspell (hact frontier hfron i hi)
      (hact frontier hfron j hj) hne hent hent'
      (hr.layered.apart frontier hfron i hi j hj) (hr.layered.apart frontier hfron j hj i hi)
  obtain ⟨run, hout, hdelt, hst, hstays⟩ := hrun.serial (found_waves h hblock hact) hwaves hdecl
  have hflatten : (r.frontiers.map (entriesOf body b ds)).flatten =
      entriesOf body b ds r.frontiers.flatten := filterMap_flatten.symm
  rw [hflatten] at hdelt hst hstays
  -- both orders respect the arcs between the accepted transactions
  have hall : ∀ i ∈ r.frontiers.flatten, i ∈ activeVertices (conflictAdjacency ds) r.aborted :=
    fun i hi => hflat.mem_iff.1 hi
  have hequiv := (Serial.serialFrom_reorder
    ((hr.perm.trans hflat.symm).filterMap _) (nodup_entriesOf h hblock hnd hall) ?_
    (pairwise_entriesOf h hblock hall (by simpa using hr.layered.topological.pairwise))
    (pairwise_entriesOf h hblock (fun i hi => hr.perm.mem_iff.1 hi) hr.order) hstays).2
  · refine ⟨run, hout, ?_, fun address => ?_⟩
    · rw [hdelt, (serialRun_eq _ _).1, (serialRun_eq _ _).1]
      exact hequiv.outcomes.map _
    · rw [hst, (serialRun_eq _ _).2, (serialRun_eq _ _).2]
      exact hequiv.final address
  · intro entry hent entry' hent' harc harc' hne
    obtain ⟨i, hi, hfind⟩ := mem_filterMap.1 hent
    obtain ⟨j, hj, hfind'⟩ := mem_filterMap.1 hent'
    refine independent_of_no_arc h hblock hspell (hall i hi) (hall j hj) ?_ hfind hfind' ?_ ?_
    · rintro rfl
      exact hne (Option.some.inj (hfind.symm.trans hfind'))
    · exact fun hin => harc ⟨i, hall i hi, j, hall j hj, hfind, hfind', hin⟩
    · exact fun hin => harc' ⟨j, hall j hj, i, hall i hi, hfind', hfind, hin⟩

end

/-- The waves of a conflict-graph plan, whatever the interleaving of the workers, give the receipts,
write sets and state that the accepted transactions give one by one in serialization order. -/
theorem cg_waves_serial (p : Primitives) (search : CycleSearch) (timing : Nat × Nat)
    (digests : Digests)
    (root : (String → Option String) → String) (workers : Nat) {candidates : PlannedBlock T}
    {plan : GraphPlan} {deferred : List T}
    (hplan : buildCGPlan p search body timing candidates = .ok plan)
    (hsplit : splitCGFirstPassCandidates body candidates.txList plan = .ok (b.txList, deferred))
    (hshard : b.shardID = candidates.shardID) (hspelled : ConflictsSpelled body b)
    (base : Snapshot) :
    ∃ order, plan.serializationOrder.map (b.byID body).find = order.map some ∧
      (∃ starts out, ExecutesWaves body digests root workers b base plan.waves starts out) ∧
      ∀ starts out, ExecutesWaves body digests root workers b base plan.waves starts out →
        WavesDeclared body digests b starts → ∃ run, out = .ok run ∧
            (run.1.map rootless).Perm ((serialRun body digests root b base order).1.map rootless) ∧
            Serial.Same run.2 (serialRun body digests root b base order).2 := by
  obtain ⟨ds, r, hds, hr, rfl⟩ := build_eq_ok hplan
  rw [← hshard] at hds
  have hcandidates := Candidates.of_ok hds
  have hresolved := wellResolved hr
  have hblock : Accepts body candidates.txList ds r.aborted b := (split_eq_ok hsplit).1
  have hflat : r.frontiers.flatten.Perm (activeVertices (conflictAdjacency ds) r.aborted) := by
    simpa using hresolved.layered.perm
  refine ⟨entriesOf body b ds r.officialOrder, ?_, ?_, ?_⟩
  · rw [← map_find_idAt hcandidates hblock fun i hi => hresolved.perm.mem_iff.1 hi]
    exact map_map
  · exact exists_executesWaves base (found_waves hcandidates hblock fun frontier hfrontier i hi =>
      hflat.mem_iff.1 (mem_flatten.2 ⟨frontier, hfrontier, hi⟩))
  · intro starts out hrun hdeclared
    exact serial_of_resolved hcandidates hblock hresolved rfl hspelled hrun hdeclared

end Serial

/-! ## Two spellings of one address -/

section

open BatchSI (direct sampleDigests)

/-- The vertices that a path of at most `steps + 1` arcs leads to. -/
def reached (adjacency : List (List Nat)) (aborted : List Nat) : (steps i : Nat) → List Nat
  | 0, i => activeArcs adjacency aborted i
  | steps + 1, i =>
    let near := reached adjacency aborted steps i
    (near ++ near.flatMap (activeArcs adjacency aborted)).dedup

/-- The strongly connected components with cycles; every vertex of one is aborted. -/
def sampleSearch : CycleSearch where
  cyclicSCCs adjacency aborted :=
    let n := adjacency.length
    let connected i j := j ∈ reached adjacency aborted n i ∧ i ∈ reached adjacency aborted n j
    ((range n).filter fun i => connected i i ∧ ∀ j < i, ¬connected i j).map fun i =>
      (range n).filter (connected i)
  breakCycles _ component budget := .ok (component, budget)

def samplePrimitives : Primitives where
  sha256 := id
  json _ := "{}"
  base64 _ := none
  address _ := ""
  ed25519 _ _ _ := false

/-- Two writers of one address, which only the second one spells with its shard. -/
def aliasedBlock : PlannedBlock SignedTransaction :=
  { shardID := "s", height := 1, txList :=
    [direct "t1" [{ key := "x", mode := .readWrite }],
      direct "t2" [{ key := "s::x", mode := .readWrite }]] }

/-- A reader and a writer of one key, and a transaction that has nothing to do with them. -/
def plainBlock : PlannedBlock SignedTransaction :=
  { shardID := "s", height := 1, txList :=
    [direct "t1" [{ key := "x", mode := .readWrite }],
      direct "t2" [{ key := "x", mode := .read }, { key := "y", mode := .write }],
      direct "t3" [{ key := "z", mode := .write }]] }

def samplePlan (b : PlannedBlock SignedTransaction) (frontiers : List (List Nat))
    (order : List Nat) :
    GraphPlan :=
  planOf samplePrimitives (0, 0) b.height (b.txList.zipIdx.map (describe id b.shardID))
    ⟨frontiers, order, []⟩

lemma build_aliasedBlock : buildCGPlan samplePrimitives sampleSearch id (0, 0) aliasedBlock =
    .ok (samplePlan aliasedBlock [[0, 1]] [0, 1]) := by
  decide +kernel

def aliasedEntries : List (SignedTransaction × Nat) := aliasedBlock.txList.zipIdx

lemma accessesDeclared_of_direct {shardID : String} {base : Snapshot} {item : SignedTransaction}
    (h : isDirectAccessTransaction item = true) :
    AccessesDeclared sampleDigests 1000000 shardID base item :=
  accessesDeclared_iff.2 (.inl (.inr (.inr h)))

/-- Both transactions are in one wave, so the second one does not see what the first one writes. -/
theorem cg_waves_aliased : ∃ plan starts run,
    buildCGPlan samplePrimitives sampleSearch id (0, 0) aliasedBlock = .ok plan ∧
      splitCGFirstPassCandidates id aliasedBlock.txList plan = .ok (aliasedBlock.txList, []) ∧
      plan.serializationOrder.map (aliasedBlock.byID id).find = aliasedEntries.map some ∧
      ExecutesWaves id sampleDigests (fun _ => "") 2 aliasedBlock ∅ plan.waves starts (.ok run) ∧
      WavesDeclared id sampleDigests aliasedBlock starts ∧
      ¬Serial.Same run.2
        (serialRun id sampleDigests (fun _ => "") aliasedBlock ∅ aliasedEntries).2 := by
  refine ⟨_, [⟨aliasedEntries, ∅⟩], _, build_aliasedBlock, by decide +kernel, by decide +kernel,
    .next (by decide +kernel) ((WorkerPool.completes_iff (by decide)).2 rfl) .done, ?_, ?_⟩
  · intro start hstart entry hentry
    rw [mem_singleton.1 hstart] at hentry
    have hdirect : ∀ entry ∈ aliasedEntries, isDirectAccessTransaction (id entry.1) = true := by
      decide +kernel
    exact accessesDeclared_of_direct (hdirect entry hentry)
  · intro hsame
    have hdiffer := hsame "s::x"
    revert hdiffer
    decide +kernel

lemma build_plainBlock : buildCGPlan samplePrimitives sampleSearch id (0, 0) plainBlock =
    .ok (samplePlan plainBlock [[1, 2], [0]] [1, 2, 0]) := by
  decide +kernel

lemma conflictsSpelled_plainBlock : ConflictsSpelled id plainBlock := by
  have hkeys : ∀ item ∈ plainBlock.txList, ∀ item' ∈ plainBlock.txList,
      ∀ key ∈ (literatureDeclaredAccess (id item) plainBlock.shardID).1 ++
        (literatureDeclaredAccess (id item) plainBlock.shardID).2,
      ∀ key' ∈ (literatureDeclaredAccess (id item') plainBlock.shardID).1 ++
        (literatureDeclaredAccess (id item') plainBlock.shardID).2,
        literatureQualifiedKey plainBlock.shardID key = literatureQualifiedKey plainBlock.shardID
          key' →
          key = key' := by decide +kernel
  rintro item hitem item' hitem' - ⟨key, key', hsame, hacc⟩
  refine ⟨key, key', hkeys item hitem item' hitem' key ?_ key' ?_ hsame, hacc⟩
  · rcases hacc with h | h | h
    · exact mem_append_right _ h.1
    · exact mem_append_left _ h.1
    · exact mem_append_right _ h.1
  · rcases hacc with h | h | h
    · exact mem_append_left _ h.2
    · exact mem_append_right _ h.2
    · exact mem_append_right _ h.2

def plainWaves : List (List (SignedTransaction × Nat)) :=
  [[1, 2], [0]].map (entriesOf id plainBlock (plainBlock.txList.zipIdx.map (describe id "s")))

def plainMiddle : Snapshot :=
  (materialize (fun _ => "") plainBlock ∅
    ((plainWaves.headD []).map (waveResult id sampleDigests plainBlock ∅))).2

lemma wavesDeclared_plain : WavesDeclared id sampleDigests plainBlock
    [⟨plainWaves.headD [], ∅⟩, ⟨plainWaves.getLastD [], plainMiddle⟩] := by
  have hdirect : ∀ wave ∈ plainWaves, ∀ entry ∈ wave,
      isDirectAccessTransaction (id entry.1) = true := by decide +kernel
  intro start hstart entry hent
  refine accessesDeclared_of_direct ?_
  rcases mem_cons.1 hstart with rfl | hstart
  · exact hdirect _ mem_cons_self entry hent
  · rw [mem_singleton.1 hstart] at hent
    exact hdirect _ (mem_cons_of_mem _ mem_cons_self) entry hent

lemma executesWaves_plain : ∃ out, ExecutesWaves id sampleDigests (fun _ => "") 2 plainBlock ∅
    [["t2", "t3"], ["t1"]] [⟨plainWaves.headD [], ∅⟩, ⟨plainWaves.getLastD [], plainMiddle⟩] out :=
  ⟨_, .next (by decide +kernel) ((WorkerPool.completes_iff (by decide)).2 rfl)
    (.next (by decide +kernel) ((WorkerPool.completes_iff (by decide)).2 rfl) .done)⟩

theorem cg_waves_serial_plain : ∃ starts out order run, ConflictsSpelled id plainBlock ∧
      (samplePlan plainBlock [[1, 2], [0]] [1, 2, 0]).serializationOrder.map
        (plainBlock.byID id).find = order.map some ∧
      ExecutesWaves id sampleDigests (fun _ => "") 2 plainBlock ∅
        (samplePlan plainBlock [[1, 2], [0]] [1, 2, 0]).waves starts out ∧
      WavesDeclared id sampleDigests plainBlock starts ∧ out = .ok run ∧
      (run.1.map rootless).Perm
        ((serialRun id sampleDigests (fun _ => "") plainBlock ∅ order).1.map rootless) ∧
      Serial.Same run.2 (serialRun id sampleDigests (fun _ => "") plainBlock ∅ order).2 := by
  have hsplit : splitCGFirstPassCandidates id plainBlock.txList
      (samplePlan plainBlock [[1, 2], [0]] [1, 2, 0]) = .ok (plainBlock.txList, []) := by
    decide +kernel
  obtain ⟨order, horder, -, hserial⟩ := cg_waves_serial samplePrimitives sampleSearch (0, 0)
    sampleDigests (fun _ => "") 2 build_plainBlock hsplit rfl conflictsSpelled_plainBlock ∅
  obtain ⟨out, hrun⟩ := executesWaves_plain
  obtain ⟨run, hout, hdeltas, hstate⟩ := hserial _ _ hrun wavesDeclared_plain
  exact ⟨_, _, order, run, conflictsSpelled_plainBlock, horder, hrun, wavesDeclared_plain, hout,
    hdeltas, hstate⟩

end

end ChainLab.Execution.Literature
