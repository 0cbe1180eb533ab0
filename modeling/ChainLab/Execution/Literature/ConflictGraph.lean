import ChainLab.Execution.Literature.Graph

/-!
# The conflict-graph planner

`buildCGPlan` draws the conflict multigraph of the candidates, aborts transactions until it has no
cycle, and orders what is left in two ways: by `cgBasicTopologicalOrder` for the serialization order
and by `cgExecutionFrontiersForActive` for the waves.  Both respect every arc, so the waves do what
the accepted transactions do in serialization order, provided that transactions which conflict at an
address conflict at a key as well.
-/

namespace ChainLab.Execution.Literature

open List
open BatchSI (PlannedBlock BatchStart find_byID)
open Result
open Json (field omitZero omitNil)
open Proposal (Primitives)

/-! ## Plans -/

/-- `literatureGraphMetrics`. -/
structure GraphMetrics where
  transactionCount : Int := 0
  edgeCount : Int := 0
  waveCount : Int := 0
  maximumWaveWidth : Int := 0
  colorCount : Int := 0
  pairChecks : Int := 0
  planningWorkerCount : Int := 0
  abortCount : Int := 0
  cycleResolutionCount : Int := 0
  graphConstructionMS : Int := 0
  sortingMS : Int := 0
deriving DecidableEq, Repr

/-- `literatureGraphPlan`. -/
structure GraphPlan where
  algorithmID : String := ""
  version : String := ""
  blockHeight : Nat := 0
  candidateTransactionIDs : List String := []
  waves : List (List String) := []
  serializationOrder : List String := []
  abortedTransactionIDs : List String := []
  declaredAccessSetDigest : String := ""
  declaredReadKeyCount : Int := 0
  declaredWriteKeyCount : Int := 0
  edges : List GraphEdge := []
  consensusWireVersion : String := ""
  edgesDigest : String := ""
  validatorMode : String := ""
  metrics : GraphMetrics := {}
  planDigest : String := ""
deriving DecidableEq, Repr

def GraphEdge.json (e : GraphEdge) : Json :=
  .object [field "from" .num e.source, field "to" .num e.target]

def GraphMetrics.fields (m : GraphMetrics) : List Json.Field :=
  [field "transaction_count" .num m.transactionCount, field "edge_count" .num m.edgeCount,
    field "wave_count" .num m.waveCount, field "maximum_wave_width" .num m.maximumWaveWidth,
    omitZero "color_count" 0 .num m.colorCount, omitZero "pair_checks" 0 .num m.pairChecks,
    omitZero "planning_worker_count" 0 .num m.planningWorkerCount,
    omitZero "abort_count" 0 .num m.abortCount,
    omitZero "cycle_resolution_count" 0 .num m.cycleResolutionCount,
    omitZero "graph_construction_ms" 0 .num m.graphConstructionMS,
    omitZero "sorting_ms" 0 .num m.sortingMS]

def GraphPlan.fields (plan : GraphPlan) : List Json.Field :=
  [field "algorithm_id" .str plan.algorithmID, field "version" .str plan.version,
    field "block_height" .nat plan.blockHeight,
    field "candidate_transaction_ids" (.list .str) plan.candidateTransactionIDs,
    field "waves" (.list (.list .str)) plan.waves,
    field "serialization_order" (.list .str) plan.serializationOrder,
    omitNil "aborted_transaction_ids" .str plan.abortedTransactionIDs,
    field "declared_access_set_digest" .str plan.declaredAccessSetDigest,
    field "declared_read_key_count" .num plan.declaredReadKeyCount,
    field "declared_write_key_count" .num plan.declaredWriteKeyCount,
    omitNil "edges" GraphEdge.json plan.edges,
    omitZero "wire_version" "" .str plan.consensusWireVersion,
    omitZero "edges_digest" "" .str plan.edgesDigest,
    omitZero "validator_mode" "" .str plan.validatorMode,
    field "metrics" (fun m => .object (GraphMetrics.fields m)) plan.metrics,
    field "plan_digest" .str plan.planDigest]

def GraphPlan.json (plan : GraphPlan) : Json :=
  .object plan.fields

def GraphPlan.committed (plan : GraphPlan) : GraphPlan :=
  { plan with
    planDigest := ""
    consensusWireVersion := ""
    edgesDigest := ""
    metrics := { plan.metrics with graphConstructionMS := 0, sortingMS := 0 } }

section Digests

variable (p : Primitives)

def literaturePlanDigest (plan : GraphPlan) : String :=
  p.digest plan.committed.json

def literatureDeclaredAccessSummary {T : Type} (items : List (TxAccess T)) : String × Int × Int :=
  let reads := BatchSI.sortedKeys (items.flatMap TxAccess.readKeys)
  let writes := BatchSI.sortedKeys (items.flatMap TxAccess.writeKeys)
  (p.digest
    (.object [field "read_keys" (.list .str) reads, field "write_keys" (.list .str) writes]),
    reads.length, writes.length)

def literatureFinalizePlan (plan : GraphPlan) : GraphPlan :=
  let finalized := { plan with
    version := "mbe_literature_graph_plan_v1"
    serializationOrder := plan.waves.flatten
    metrics := { plan.metrics with
      waveCount := plan.waves.length
      maximumWaveWidth :=
        plan.waves.foldl (fun width (wave : List String) => max width wave.length) 0 } }
  { finalized with planDigest := literaturePlanDigest p finalized }

end Digests

/-! ## Cycles -/

/-- The graph searches of the planner.  `cyclicSCCs` is `cgCyclicSCCs`, Tarjan's algorithm.
`breakCycles` enumerates the cycles of a component within a budget of work, after Johnson, and
chooses vertices that lie on the cycles it has found; it returns them with the rest of the budget.
Nothing is assumed of either: the two topological sorts that follow refuse whatever still has a
cycle. -/
structure CycleSearch where
  cyclicSCCs : (adjacency : List (List Nat)) → (aborted : List Nat) → List (List Nat)
  breakCycles : (adjacency : List (List Nat)) → (component : List Nat) → (budget : Nat) →
    Except String (List Nat × Nat)

section Resolution

variable {T : Type} (search : CycleSearch) (ds : List (TxAccess T))

def cgUnitCompleteBidirectedComponent (component : List Nat) (adjacency : List (List Nat)) : Bool :=
  2 ≤ component.length && component.all (· < adjacency.length) && component.all fun source =>
      let inner := (adjacency.getD source []).filter (· ∈ component)
      source ∉ inner && inner.dedup.length = component.length - 1 &&
        component.all fun target => target = source || inner.count target = 1

/-- All vertices but the greatest: `cgCompleteBidirectedVictims` and
`cgMandatoryRMWCliqueVictims`. -/
def allButGreatest (vertices : List Nat) : List Nat :=
  (vertices.insertionSort (· ≤ ·)).dropLast

def rmwMembers (component : List Nat) (key : String) : List Nat :=
  component.filter fun v => key ∈ readKeysAt ds v ∧ key ∈ writeKeysAt ds v

/-- `cgMaxRMWCliqueMembersInComponent`: of several greatest cliques, that of the least key. -/
def cgMaxRMWCliqueMembersInComponent (component : List Nat) : List Nat :=
  ((BatchSI.sortedKeys (component.flatMap (writeKeysAt ds))).foldl (fun best key =>
    if best.length < (rmwMembers ds component key).length then rmwMembers ds component key
      else best)
    []).insertionSort (· ≤ ·)

/-- The vertices of a component to be aborted, and the rest of the budget. -/
def componentVictims (component : List Nat) (budget : Nat) : Except String (List Nat × Nat) :=
  let members := cgMaxRMWCliqueMembersInComponent ds component
  if cgUnitCompleteBidirectedComponent component (conflictAdjacency ds) then
    .ok (allButGreatest component, budget)
  else if 16 ≤ members.length then
    if allButGreatest members = [] then
      .error "nezha cg large RMW clique reduction made no progress"
    else .ok (allButGreatest members, budget)
  else search.breakCycles (conflictAdjacency ds) component budget

def abortVictim (aborted : List Nat) (victim : Nat) : Except String (List Nat) := do
  require (victim < ds.length)
    ("nezha cg cycle resolution returned out-of-range victim " ++ Text.formatUint victim)
  return if victim ∈ aborted then aborted else aborted ++ [victim]

def resolveComponent (s : List Nat × Nat) (component : List Nat) : Except String (List Nat × Nat) :=
    do
  let (victims, budget) ← componentVictims search ds component s.2
  let aborted ← victims.foldlM (abortVictim ds) s.1
  return (aborted, budget)

/-- The rounds of `cgResolveOfficialAdjacencyContext`.  Each round aborts a vertex, so one round
more than there are vertices suffices. -/
def resolveRounds : Nat → List Nat → Nat → Except String (List Nat)
  | 0, _, _ => .error "nezha cg cycle resolution made no progress"
  | rounds + 1, aborted, budget => do
    let components := search.cyclicSCCs (conflictAdjacency ds) aborted
    if components = [] then return aborted
    else
      let (next, rest) ← components.foldlM (resolveComponent search ds) (aborted, budget)
      require (aborted.length < next.length) "nezha cg cycle resolution made no progress"
      resolveRounds rounds next rest

/-- What `cgResolveOfficialAdjacency` returns. -/
structure Resolved where
  frontiers : List (List Nat)
  officialOrder : List Nat
  aborted : List Nat

def cgResolveOfficialAdjacency : Except String Resolved := do
  let found ← resolveRounds search ds (ds.length + 1) [] 1000000
  let aborted := found.insertionSort (· ≤ ·)
  let officialOrder ← cgBasicTopologicalOrder (conflictAdjacency ds) aborted
  let frontiers ← cgExecutionFrontiersForActive (conflictAdjacency ds) aborted
  return ⟨frontiers, officialOrder, aborted⟩

end Resolution

/-! ## The planner -/

section

variable {T : Type} (p : Primitives) (search : CycleSearch) (body : T → SignedTransaction)

def idAt (ds : List (TxAccess T)) (i : Nat) : String := ds[i]?.elim "" TxAccess.txID

/-- The plan of resolved candidates; `timing` are the measured times. -/
def planOf (timing : Nat × Nat) (height : Nat) (ds : List (TxAccess T)) (r : Resolved) :
    GraphPlan :=
  let summary := literatureDeclaredAccessSummary p ds
  let finalized := literatureFinalizePlan p {
    algorithmID := "nezha_cg_johnson_conflict_graph_v4"
    blockHeight := height
    declaredAccessSetDigest := summary.1
    declaredReadKeyCount := summary.2.1
    declaredWriteKeyCount := summary.2.2
    edges := conflictEdges ds
    validatorMode := "nezha_cg_reference_projection_validator_v4"
    abortedTransactionIDs := r.aborted.map (idAt ds)
    metrics := {
      transactionCount := ds.length
      edgeCount := (conflictEdges ds).length
      pairChecks := ds.length * (ds.length - 1) / 2
      planningWorkerCount := 1
      abortCount := r.aborted.length
      cycleResolutionCount := r.aborted.length
      graphConstructionMS := timing.1
      sortingMS := timing.2 }
    waves := r.frontiers.map fun frontier => frontier.map (idAt ds)
    candidateTransactionIDs := ds.map TxAccess.txID }
  let ordered := { finalized with serializationOrder := r.officialOrder.map (idAt ds) }
  { ordered with planDigest := literaturePlanDigest p ordered }

def buildCGPlan (timing : Nat × Nat) (b : PlannedBlock T) : Except String GraphPlan := do
  let items ← literatureAccessDescriptors body b.shardID b.txList
  let resolved ← cgResolveOfficialAdjacency search items
  return planOf p timing b.height items resolved

def addAborted (duplicateMessage : String) (aborted : List String) (id : String) :
    Except String (List String) := do
  require (id ≠ "" ∧ id ∉ aborted) duplicateMessage
  return aborted ++ [id]

/-- The accepted and the deferred candidates. -/
def splitFirstPassCandidates (identityMessage duplicateMessage outsideMessage : String)
    (items : List T) (plan : GraphPlan) : Except String (List T × List T) := do
  require (items.map (fun item => (body item).txID) = plan.candidateTransactionIDs) identityMessage
  let aborted ← plan.abortedTransactionIDs.foldlM (addAborted duplicateMessage) []
  let deferred := items.filter fun item => (body item).txID ∈ aborted
  require ((deferred.map fun item => (body item).txID).dedup.length = aborted.length) outsideMessage
  return (items.filter (fun item => (body item).txID ∉ aborted), deferred)

def splitCGFirstPassCandidates (items : List T) (plan : GraphPlan) :
    Except String (List T × List T) :=
  splitFirstPassCandidates body "nezha cg first-pass candidate identity mismatch"
    "nezha cg first-pass abort set contains duplicate/empty transaction id"
    "nezha cg abort set references transaction outside candidate block" items plan

end

/-! ## What the planner guarantees -/

section

variable {T : Type} {p : Primitives} {search : CycleSearch} {body : T → SignedTransaction}

lemma length_conflictAdjacency (ds : List (TxAccess T)) :
    (conflictAdjacency ds).length = ds.length := by
  simp [conflictAdjacency]

variable {ds : List (TxAccess T)} {plan : GraphPlan}

lemma getD_conflictAdjacency {i : Nat} (hi : i < ds.length) :
    (conflictAdjacency ds).getD i [] = conflictRow ds i := by
  simp [conflictAdjacency, List.getD, hi]

lemma build_eq_ok {timing : Nat × Nat} {b : PlannedBlock T}
    (h : buildCGPlan p search body timing b = .ok plan) :
    ∃ ds r, literatureAccessDescriptors body b.shardID b.txList = .ok ds ∧
      cgResolveOfficialAdjacency search ds = .ok r ∧ plan = planOf p timing b.height ds r := by
  obtain ⟨ds, hds, h⟩ := bind_eq_ok.1 h
  obtain ⟨r, hr, h⟩ := bind_eq_ok.1 h
  cases h
  exact ⟨ds, r, hds, hr, rfl⟩

/-- Waves and serialization order hold the transactions that were not aborted, along the arcs. -/
structure WellResolved (ds : List (TxAccess T)) (r : Resolved) : Prop where
  layered : Kahn.Layered (activeVertices (conflictAdjacency ds) r.aborted)
    (activeArcs (conflictAdjacency ds) r.aborted) [] r.frontiers
  perm : r.officialOrder.Perm (activeVertices (conflictAdjacency ds) r.aborted)
  order : r.officialOrder.Pairwise fun i j => i ∉ activeArcs (conflictAdjacency ds) r.aborted j

lemma wellResolved {r : Resolved} (h : cgResolveOfficialAdjacency search ds = .ok r) :
    WellResolved ds r := by
  obtain ⟨found, -, h⟩ := bind_eq_ok.1 h
  obtain ⟨order, horder, h⟩ := bind_eq_ok.1 h
  obtain ⟨frontiers, hfront, h⟩ := bind_eq_ok.1 h
  cases h
  obtain ⟨hperm, hpair⟩ := topological_of_order horder
  exact ⟨layered_of_frontiers hfront, hperm, hpair⟩

lemma foldlM_addAborted {message : String} {ids acc out : List String}
    (h : ids.foldlM (addAborted message) acc = .ok out) : out = acc ++ ids := by
  induction ids generalizing acc with
  | nil =>
    cases h
    simp
  | cons id ids ih =>
    rw [foldlM_cons, bind_eq_ok] at h
    obtain ⟨next, hnext, h⟩ := h
    obtain ⟨-, hnext⟩ := require_bind_eq_ok.1 hnext
    cases hnext
    rw [ih h]
    simp

lemma split_eq_ok {identityMessage duplicateMessage outsideMessage : String}
    {items accepted deferred : List T}
    (h : splitFirstPassCandidates body identityMessage duplicateMessage outsideMessage items plan =
      .ok (accepted, deferred)) :
    accepted = items.filter (fun item => (body item).txID ∉ plan.abortedTransactionIDs) ∧
      deferred = items.filter (fun item => (body item).txID ∈ plan.abortedTransactionIDs) := by
  obtain ⟨-, h⟩ := require_bind_eq_ok.1 h
  obtain ⟨aborted, habort, h⟩ := bind_eq_ok.1 h
  obtain ⟨-, h⟩ := require_bind_eq_ok.1 h
  cases h
  have hsame : aborted = plan.abortedTransactionIDs := by simpa using foldlM_addAborted habort
  rw [hsame]
  exact ⟨rfl, rfl⟩

structure Candidates (body : T → SignedTransaction) (shardID : String) (items : List T)
    (ds : List (TxAccess T)) : Prop where
  names : ∀ item ∈ items, (body item).txID ≠ ""
  distinct : (items.map fun item => (body item).txID).Nodup
  described : ds = items.zipIdx.map (describe body shardID)

namespace Candidates

variable {shardID : String} {items : List T} {ds : List (TxAccess T)} {i j : Nat}

lemma of_ok (h : literatureAccessDescriptors body shardID items = .ok ds) :
    Candidates body shardID items ds := by
  obtain ⟨hnames, hdist, hdesc⟩ := literatureAccessDescriptors_eq_ok.1 h
  exact ⟨hnames, hdist, hdesc⟩

section

variable (h : Candidates body shardID items ds)

include h

lemma length_eq : ds.length = items.length := by
  simp [h.described]

lemma getElem? (hi : i < items.length) : ds[i]? = some (describe body shardID (items[i], i)) := by
  rw [h.described]
  simp [hi]

lemma idAt_eq (hi : i < items.length) : idAt ds i = (body items[i]).txID := by
  rw [idAt, h.getElem? hi]
  rfl

lemma idAt_inj (hi : i < items.length) (hj : j < items.length) (he : idAt ds i = idAt ds j) :
    i = j := by
  rw [h.idAt_eq hi, h.idAt_eq hj] at he
  have hi' : i < (items.map fun item => (body item).txID).length := by simpa using hi
  have hj' : j < (items.map fun item => (body item).txID).length := by simpa using hj
  have hsame : (items.map fun item => (body item).txID)[i] =
      (items.map fun item => (body item).txID)[j] := by simpa using he
  exact h.distinct.getElem_inj_iff.1 hsame

end

variable {aborted : List Nat}

section

variable (h : Candidates body shardID items ds)

include h

lemma map_idAt : (List.range items.length).map (idAt ds) = items.map fun item =>
    (body item).txID := by
  refine ext_getElem (by simp) fun i hi hi' => ?_
  have hlt : i < items.length := by simpa using hi
  simpa using h.idAt_eq hlt

lemma mem_map_idAt (habort : ∀ v ∈ aborted, v < items.length) {i : Nat} (hi : i < items.length) :
    idAt ds i ∈ aborted.map (idAt ds) ↔ i ∈ aborted := by
  constructor
  · intro hin
    obtain ⟨a, ha, he⟩ := mem_map.1 hin
    exact h.idAt_inj (habort a ha) hi he ▸ ha
  · exact fun hin => mem_map_of_mem hin

lemma map_filter_idAt (P : String → Prop) [DecidablePred P] :
    (items.filter fun item => P (body item).txID).map (fun item => (body item).txID) =
      ((List.range items.length).filter fun i => P (idAt ds i)).map (idAt ds) := by
  calc (items.filter fun item => P (body item).txID).map (fun item => (body item).txID)
      = (items.map fun item => (body item).txID).filter P := by
        rw [filter_map]
        rfl
    _ = ((List.range items.length).map (idAt ds)).filter P := by rw [h.map_idAt]
    _ = _ := by
        rw [filter_map]
        rfl

lemma map_active (hlt : ∀ v ∈ aborted, v < items.length) :
    (activeVertices (conflictAdjacency ds) aborted).map (idAt ds) =
      (items.filter fun item => (body item).txID ∉ aborted.map (idAt ds)).map
        fun item => (body item).txID := by
  rw [h.map_filter_idAt (· ∉ aborted.map (idAt ds)), activeVertices, length_conflictAdjacency,
    h.length_eq]
  refine congrArg _ (filter_congr fun i hi => ?_)
  simp only [h.mem_map_idAt hlt (mem_range.1 hi)]

end

end Candidates

end

end ChainLab.Execution.Literature
