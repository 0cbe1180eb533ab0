import ChainLab.Execution.Literature.Waves

/-!
# Conflict multigraphs

`cgBuildOfficialConflictMultigraph` draws an arc from an earlier to a later transaction for every
key that both write, and one from a reader to every other writer of a key it reads.  Vertices are
the positions of the transactions.  The graph that is left when some transactions are aborted is
ordered twice: into frontiers of transactions without an arc between them
(`cgExecutionFrontiersForActive`) and one by one (`cgBasicTopologicalOrder`).
-/

namespace ChainLab.Execution.Literature

open List Result

/-! ## Descriptors -/

structure TxAccess (T : Type) where
  item : T
  txID : String
  ordinal : Nat
  readKeys : List String
  writeKeys : List String
deriving DecidableEq, Repr

section Descriptors

variable {T : Type} (body : T → SignedTransaction) (shardID : String)

def describe (entry : T × Nat) : TxAccess T where
  item := entry.1
  txID := (body entry.1).txID
  ordinal := entry.2
  readKeys := (literatureDeclaredAccess (body entry.1) shardID).1
  writeKeys := (literatureDeclaredAccess (body entry.1) shardID).2

def addDescriptor (out : List (TxAccess T)) (entry : T × Nat) : Except String (List (TxAccess T)) :=
    do
  require ((body entry.1).txID ≠ "" ∧ (body entry.1).txID ∉ out.map TxAccess.txID)
    "literature scheduler requires unique non-empty tx ids"
  return out ++ [describe body shardID entry]

def literatureAccessDescriptors (items : List T) : Except String (List (TxAccess T)) :=
  items.zipIdx.foldlM (addDescriptor body shardID) []

variable {body shardID}

lemma foldlM_addDescriptor_eq_ok {entries : List (T × Nat)} {acc ds : List (TxAccess T)}
    (hacc : (acc.map TxAccess.txID).Nodup) :
    entries.foldlM (addDescriptor body shardID) acc = .ok ds ↔
      (∀ entry ∈ entries, (body entry.1).txID ≠ "") ∧
        (acc.map TxAccess.txID ++ entries.map fun entry => (body entry.1).txID).Nodup ∧
        ds = acc ++ entries.map (describe body shardID) := by
  induction entries generalizing acc with
  | nil =>
    have hnil : (List.foldlM (addDescriptor body shardID) acc [] = .ok ds) ↔ acc = ds :=
      Except.ok.injEq acc ds ▸ Iff.rfl
    rw [hnil]
    simpa [hacc] using eq_comm
  | cons entry entries ih =>
    rw [foldlM_cons]
    simp only [addDescriptor, bind_assoc, pure_bind, require_bind_eq_ok]
    have hmap : (acc ++ [describe body shardID entry]).map TxAccess.txID =
        acc.map TxAccess.txID ++ [(body entry.1).txID] := by simp [describe]
    constructor
    · rintro ⟨⟨hname, hnew⟩, h⟩
      have hnd : ((acc ++ [describe body shardID entry]).map TxAccess.txID).Nodup := by
        rw [hmap]
        refine nodup_append.2 ⟨hacc, nodup_singleton _, ?_⟩
        intro id hid other hother he
        exact hnew (mem_singleton.1 hother ▸ he ▸ hid)
      obtain ⟨hnames, hdist, rfl⟩ := (ih hnd).1 h
      refine ⟨forall_mem_cons.2 ⟨hname, hnames⟩, ?_, by simp⟩
      rw [hmap] at hdist
      simpa using hdist
    · rintro ⟨hnames, hdist, rfl⟩
      have hdist' : ((acc ++ [describe body shardID entry]).map TxAccess.txID ++
          entries.map fun entry => (body entry.1).txID).Nodup := by
        rw [hmap]
        simpa using hdist
      have hnd := (nodup_append.1 hdist').1
      refine ⟨⟨hnames entry mem_cons_self, ?_⟩, (ih hnd).2
        ⟨fun e he => hnames e (mem_cons_of_mem _ he), hdist', by simp⟩⟩
      rw [hmap, nodup_append] at hnd
      intro hin
      exact hnd.2.2 _ hin _ mem_cons_self rfl

lemma literatureAccessDescriptors_eq_ok {items : List T} {ds : List (TxAccess T)} :
    literatureAccessDescriptors body shardID items = .ok ds ↔
      (∀ item ∈ items, (body item).txID ≠ "") ∧ (items.map fun item => (body item).txID).Nodup ∧
        ds = items.zipIdx.map (describe body shardID) := by
  have hids : items.zipIdx.map (fun entry => (body entry.1).txID) =
      items.map fun item => (body item).txID := by
    calc items.zipIdx.map (fun entry => (body entry.1).txID)
        = (items.zipIdx.map Prod.fst).map fun item => (body item).txID := by
          rw [map_map]
          rfl
      _ = items.map fun item => (body item).txID := by rw [zipIdx_map_fst]
  rw [literatureAccessDescriptors, foldlM_addDescriptor_eq_ok (by simp)]
  simp only [map_nil, nil_append, hids]
  refine and_congr_left fun _ => ⟨fun h item hitem => ?_, fun h entry hent => ?_⟩
  · rw [← zipIdx_map_fst 0 items] at hitem
    obtain ⟨entry, hent, rfl⟩ := mem_map.1 hitem
    exact h entry hent
  · refine h entry.1 ?_
    rw [← zipIdx_map_fst 0 items]
    exact mem_map_of_mem hent

end Descriptors

/-! ## The multigraph -/

section

variable {T : Type} (ds : List (TxAccess T))

def readKeysAt (i : Nat) : List String := ds[i]?.elim [] TxAccess.readKeys

def writeKeysAt (i : Nat) : List String := ds[i]?.elim [] TxAccess.writeKeys

/-- The first loop: a later transaction, once for every key that both write. -/
def writeArcs (i : Nat) : List Nat :=
  (List.range' (i + 1) (ds.length - (i + 1))).flatMap fun j =>
    ((writeKeysAt ds j).filter (· ∈ writeKeysAt ds i)).map fun _ => j

def writeOwners (key : String) : List Nat :=
  (List.range ds.length).filter fun i => key ∈ writeKeysAt ds i

def addReadArc (reader : Nat) (row : List Nat) (writer : Nat) : List Nat :=
  if writer = reader ∨ writer ∈ row then row else row ++ [writer]

/-- The second loop adds the writers of the keys that a transaction reads. -/
def conflictRow (reader : Nat) : List Nat :=
  (readKeysAt ds reader).foldl
    (fun row key => (writeOwners ds key).foldl (addReadArc reader) row) (writeArcs ds reader)

structure GraphEdge where
  source : Int
  target : Int
deriving DecidableEq, Repr

/-- The rows of `cgBuildOfficialConflictMultigraph`. -/
def conflictAdjacency : List (List Nat) :=
  (List.range ds.length).map (conflictRow ds)

/-- Its edges, in the order in which they were added. -/
def conflictEdges : List GraphEdge :=
  ((List.range ds.length).flatMap fun i => (writeArcs ds i).map fun j => ⟨i, j⟩) ++
    (List.range ds.length).flatMap fun i =>
      ((conflictRow ds i).drop (writeArcs ds i).length).map fun j => ⟨i, j⟩

variable {ds} {i j : Nat}

lemma mem_writeArcs : j ∈ writeArcs ds i ↔
    i < j ∧ j < ds.length ∧ ∃ key ∈ writeKeysAt ds i, key ∈ writeKeysAt ds j := by
  simp only [writeArcs, mem_flatMap, mem_range'_1, mem_map, mem_filter, decide_eq_true_eq]
  constructor
  · rintro ⟨j', hrange, key, ⟨hj, hi⟩, rfl⟩
    exact ⟨by omega, by omega, key, hi, hj⟩
  · rintro ⟨hlt, hlen, key, hi, hj⟩
    exact ⟨j, by omega, key, ⟨hj, hi⟩, rfl⟩

lemma mem_addReadArc {reader writer : Nat} {row : List Nat} :
    j ∈ addReadArc reader row writer ↔ j ∈ row ∨ (j = writer ∧ j ≠ reader) := by
  unfold addReadArc
  split
  next hskip => grind
  next hadd => grind

lemma mem_foldl_addReadArc {reader : Nat} {owners row : List Nat} :
    j ∈ owners.foldl (addReadArc reader) row ↔ j ∈ row ∨ (j ∈ owners ∧ j ≠ reader) := by
  induction owners generalizing row with
  | nil => simp
  | cons writer owners ih =>
    rw [foldl_cons, ih, mem_addReadArc, mem_cons]
    tauto

lemma mem_conflictRow : j ∈ conflictRow ds i ↔ j ∈ writeArcs ds i ∨
    (j < ds.length ∧ j ≠ i ∧ ∃ key ∈ readKeysAt ds i, key ∈ writeKeysAt ds j) := by
  suffices h : ∀ (keys : List String) (row : List Nat),
      j ∈ keys.foldl (fun row key => (writeOwners ds key).foldl (addReadArc i) row) row ↔
        j ∈ row ∨ (j < ds.length ∧ j ≠ i ∧ ∃ key ∈ keys, key ∈ writeKeysAt ds j) from h _ _
  intro keys
  induction keys with
  | nil => simp
  | cons key keys ih =>
    intro row
    rw [foldl_cons, ih, mem_foldl_addReadArc]
    simp only [writeOwners, mem_filter, mem_range, decide_eq_true_eq, mem_cons, exists_eq_or_imp]
    tauto

def Conflict (ds : List (TxAccess T)) (i j : Nat) : Prop :=
  ∃ key, (key ∈ writeKeysAt ds i ∧ key ∈ readKeysAt ds j) ∨
    (key ∈ readKeysAt ds i ∧ key ∈ writeKeysAt ds j) ∨
      (key ∈ writeKeysAt ds i ∧ key ∈ writeKeysAt ds j)

lemma arc_of_conflict (hi : i < ds.length) (hj : j < ds.length) (hne : i ≠ j)
    (h : Conflict ds i j) :
    j ∈ conflictRow ds i ∨ i ∈ conflictRow ds j := by
  obtain ⟨key, ⟨hw, hr⟩ | ⟨hr, hw⟩ | ⟨hw, hw'⟩⟩ := h
  · exact .inr (mem_conflictRow.2 (.inr ⟨hi, hne, key, hr, hw⟩))
  · exact .inl (mem_conflictRow.2 (.inr ⟨hj, hne.symm, key, hr, hw⟩))
  rcases Nat.lt_or_gt_of_ne hne with hlt | hlt
  · exact .inl (mem_conflictRow.2 (.inl (mem_writeArcs.2 ⟨hlt, hj, key, hw, hw'⟩)))
  · exact .inr (mem_conflictRow.2 (.inl (mem_writeArcs.2 ⟨hlt, hi, key, hw', hw⟩)))

end

/-! ## The residual graph -/

section

variable (adjacency : List (List Nat)) (aborted : List Nat)

def activeVertices : List Nat :=
  (List.range adjacency.length).filter (· ∉ aborted)

def activeArcs (i : Nat) : List Nat :=
  (adjacency.getD i []).filter (· ∉ aborted)

def checkTargets : Except String Unit :=
  (activeVertices adjacency aborted).forM fun i => (adjacency.getD i []).forM fun target =>
    require (target < adjacency.length)
      ("nezha cg adjacency target out of range: " ++ Text.formatUint target)

/-- `cgExecutionFrontiersForActive`, with positions for names. -/
def cgExecutionFrontiersForActive : Except String (List (List Nat)) := do
  checkTargets adjacency aborted
  let vertices := activeVertices adjacency aborted
  let succ := activeArcs adjacency aborted
  match Kahn.layers vertices succ vertices.length (Kahn.indegrees vertices succ) [] with
  | some frontiers => return frontiers
  | none => .error "nezha cg residual graph is cyclic during executor frontier derivation"

def releaseArc (order : List Nat) (s : GoMap Nat Nat × List Nat) (target : Nat) :
    GoMap Nat Nat × List Nat :=
  if target ∈ order then s else Kahn.relax (fun c queue => queue ++ [c]) s target

/-- The loop over the queue.  A vertex joins it once, so as many rounds as there are vertices
suffice. -/
def orderLoop (succ : Nat → List Nat) : Nat → GoMap Nat Nat → List Nat → List Nat → List Nat
  | 0, _, _, order => order
  | _ + 1, _, [], order => order
  | rounds + 1, degree, current :: queue, order =>
    if current ∈ order then orderLoop succ rounds degree queue order
    else
      let s := (succ current).foldl (releaseArc (order ++ [current])) (degree, queue)
      orderLoop succ rounds s.1 s.2 (order ++ [current])

def cgBasicTopologicalOrder : Except String (List Nat) := do
  checkTargets adjacency aborted
  let vertices := activeVertices adjacency aborted
  let succ := activeArcs adjacency aborted
  let degree := Kahn.indegrees vertices succ
  let order := orderLoop succ vertices.length degree (vertices.filter fun i => degree.get i = 0) []
  require (order.length = vertices.length) "nezha cg cycle resolution left a cyclic residual graph"
  return order

variable {adjacency aborted}

lemma nodup_activeVertices : (activeVertices adjacency aborted).Nodup :=
  nodup_range.filter _

lemma mem_activeVertices {i : Nat} :
    i ∈ activeVertices adjacency aborted ↔ i < adjacency.length ∧ i ∉ aborted := by
  simp [activeVertices]

lemma mem_activeArcs {i j : Nat} :
    j ∈ activeArcs adjacency aborted i ↔ j ∈ adjacency.getD i [] ∧ j ∉ aborted := by
  simp [activeArcs]

lemma activeArcs_subset (h : checkTargets adjacency aborted = .ok ()) :
    ∀ i ∈ activeVertices adjacency aborted, ∀ j ∈ activeArcs adjacency aborted i,
      j ∈ activeVertices adjacency aborted := by
  intro i hi j hj
  obtain ⟨hj, hact⟩ := mem_activeArcs.1 hj
  have hrow := forM_eq_ok.1 (forM_eq_ok.1 h i hi) j hj
  exact mem_activeVertices.2 ⟨require_eq_ok.1 hrow, hact⟩

lemma inv_start : Kahn.Inv (activeVertices adjacency aborted) (activeArcs adjacency aborted)
    (Kahn.indegrees (activeVertices adjacency aborted) (activeArcs adjacency aborted)).get []
    ((activeVertices adjacency aborted).filter fun i => (Kahn.indegrees
      (activeVertices adjacency aborted) (activeArcs adjacency aborted)).get i = 0) [] := by
  refine Kahn.Inv.start (fun v _ => Kahn.get_indegrees _ _ v) (nodup_activeVertices.filter _) ?_
  intro v
  simp

lemma layered_of_frontiers {frontiers : List (List Nat)}
    (h : cgExecutionFrontiersForActive adjacency aborted = .ok frontiers) :
    Kahn.Layered (activeVertices adjacency aborted) (activeArcs adjacency aborted)
    [] frontiers := by
  obtain ⟨_, hcheck, h⟩ := bind_eq_ok.1 h
  dsimp only at h
  split at h
  next frontiers' hlayers =>
    cases h
    exact Kahn.layers_spec nodup_activeVertices (activeArcs_subset hcheck) inv_start hlayers
  next => cases h

lemma foldl_releaseArc {vertices order todo ready : List Nat} {succ : Nat → List Nat}
    {degree : Nat → Nat} (h : Kahn.Inv vertices succ degree todo ready order)
    (s : GoMap Nat Nat × List Nat) :
    todo.foldl (releaseArc order) s = todo.foldl (Kahn.relax fun c queue => queue ++ [c]) s := by
  refine foldl_ext _ _ _ fun s' target htarget => ?_
  rw [releaseArc, if_neg (h.fresh target htarget).2]

lemma orderLoop_inv {vertices : List Nat} {succ : Nat → List Nat} (hnd : vertices.Nodup)
    (hsucc : ∀ u ∈ vertices, ∀ c ∈ succ u, c ∈ vertices) {rounds : Nat} {degree : GoMap Nat Nat}
    {queue order : List Nat} (h : Kahn.Inv vertices succ degree.get [] queue order) :
    ∃ degree' queue',
      Kahn.Inv vertices succ degree' [] queue' (orderLoop succ rounds degree queue order) := by
  induction rounds generalizing degree queue order with
  | zero => exact ⟨_, _, h⟩
  | succ rounds ih =>
    cases queue with
    | nil => exact ⟨_, _, h⟩
    | cons current queue =>
      have hnot : current ∉ order := fun hin =>
        (nodup_append.1 h.distinct).2.2 current hin current mem_cons_self rfl
      have hpopped := h.pop hnd hsucc (List.Perm.refl _)
      have hpush : ∀ c (ready : List Nat), (ready ++ [c]).Perm (c :: ready) :=
        fun c ready => perm_append_singleton c ready
      have hnext := Kahn.inv_foldl_relax (s := (degree, queue)) hpush hpopped
      simp only [orderLoop, if_neg hnot]
      have hrelease := foldl_releaseArc hpopped (degree, queue)
      rw [nil_append] at hrelease hnext
      rw [hrelease]
      exact ih hnext

lemma topological_of_order {order : List Nat}
    (h : cgBasicTopologicalOrder adjacency aborted = .ok order) :
    order.Perm (activeVertices adjacency aborted) ∧
      order.Pairwise fun i j => i ∉ activeArcs adjacency aborted j := by
  obtain ⟨_, hcheck, h⟩ := bind_eq_ok.1 h
  obtain ⟨hlength, h⟩ := require_bind_eq_ok.1 h
  cases h
  obtain ⟨degree', queue', hinv⟩ :=
    orderLoop_inv nodup_activeVertices (activeArcs_subset hcheck) inv_start
  exact ⟨hinv.perm_of_length hlength, hinv.topological.pairwise⟩

end

end ChainLab.Execution.Literature
