import ChainLab.Data.Kahn
import ChainLab.Data.Result
import ChainLab.Execution.Transaction

/-!
# Batch-SI plans

`BuildBatchSIPlanWithOrdinals` splits the transactions of a block into batches in which every
address has at most one writer (WRBP, or its sequential ablation), orders each batch so that a
reader of an address comes before its writer (OFAS, or the dependency-graph ablation), and defers
the transactions that stand in the way of such an order.
-/

namespace ChainLab.Execution.BatchSI

open Result (require)

/-! ## Configuration -/

inductive PartitionMode where
  | unset
  | wrbp
  | sequential
  | unsupported (name : String)
deriving DecidableEq, Repr

inductive OrderingMode where
  | unset
  | ofas
  | dependencyGraph
  | unsupported (name : String)
deriving DecidableEq, Repr

inductive PriorityMode where
  | unset
  | paper
  | txid
  | unsupported (name : String)
deriving DecidableEq, Repr

inductive ExecutionMode where
  | unset
  | snapshotParallel
  | snapshotSerial
  | unsupported (name : String)
deriving DecidableEq, Repr

structure Config where
  workerCount : Int := 4
  partitionMode : PartitionMode := .wrbp
  orderingMode : OrderingMode := .ofas
  priorityMode : PriorityMode := .paper
  executionMode : ExecutionMode := .snapshotParallel
deriving DecidableEq, Repr

namespace Config

/-- Fields without a value take the default. -/
def normalized (c : Config) : Config where
  workerCount := if c.workerCount = 0 then 4 else c.workerCount
  partitionMode := if c.partitionMode = .unset then .wrbp else c.partitionMode
  orderingMode := if c.orderingMode = .unset then .ofas else c.orderingMode
  priorityMode := if c.priorityMode = .unset then .paper else c.priorityMode
  executionMode := if c.executionMode = .unset then .snapshotParallel else c.executionMode

def validate (config : Config) : Except String Unit :=
  let c := config.normalized
  if c.workerCount < 1 ∨ 32 < c.workerCount then
    .error "batch-si worker_count must be between 1 and 32"
  else
    match c.partitionMode, c.orderingMode, c.priorityMode, c.executionMode with
    | .unsupported name, _, _, _ => .error ("unsupported batch-si partition_mode " ++ name.quote)
    | _, .unsupported name, _, _ => .error ("unsupported batch-si ordering_mode " ++ name.quote)
    | _, _, .unsupported name, _ => .error ("unsupported batch-si priority_mode " ++ name.quote)
    | _, _, _, .unsupported name => .error ("unsupported batch-si execution_mode " ++ name.quote)
    | _, _, _, _ => .ok ()

end Config

/-! ## Declared accesses -/

def accountKeys (item : SignedTransaction) : List String :=
  ["balance:" ++ item.sender, "nonce:" ++ item.sender,
    "balance:" ++ item.receiver, "nonce:" ++ item.receiver]

def listedReads (accesses : List AccessItem) : List String :=
  (accesses.filter fun access => access.key ≠ "" && (access.mode = .read ||
    access.mode = .readWrite || access.mode = .commutativeDelta)).map AccessItem.key

def listedWrites (accesses : List AccessItem) : List String :=
  (accesses.filter fun access => access.key ≠ "" && (access.mode = .write ||
    access.mode = .readWrite || access.mode = .commutativeDelta)).map AccessItem.key

/-- The keys that a transaction declares both to read and to write: those of its accounts, unless it
has an access list of its own. -/
def impliedKeys (item : SignedTransaction) : List String :=
  if item.accessList ≠ [] then
    if item.accessListSource = "legacy_state_keys" then accountKeys item else []
  else item.stateKeys.filter (· ≠ "") ++ accountKeys item

def relayKey (item : SignedTransaction) : String :=
  "relay_commit:" ++ item.txID

/-- `batchSISortedKeys` of a set given by its elements. -/
def sortedKeys (keys : List String) : List String :=
  keys.dedup.insertionSort (· ≤ ·)

/-- The read keys and the write keys of `batchSIDeclaredAccess`. -/
def declaredAccess (item : SignedTransaction) (shardID : String) : List String × List String :=
  (sortedKeys (listedReads item.accessList ++ impliedKeys item),
    sortedKeys (listedWrites item.accessList ++ impliedKeys item ++
      if isCrossShardTargetCommit item shardID then [relayKey item] else []))

/-! ## Descriptors -/

structure TxDescriptor (T : Type) where
  item : T
  txID : String
  readKeys : List String
  writeKeys : List String
  idRank : Int
deriving DecidableEq, Repr

section Descriptors

variable {T : Type} (body : T → SignedTransaction)

/-- `batchSIDescriptorLess`. -/
def descriptorLess (left right : TxDescriptor T) : Bool :=
  left.idRank < right.idRank || (left.idRank = right.idRank && left.txID < right.txID)

def orderedDescriptors (items : List (TxDescriptor T)) : List (TxDescriptor T) :=
  items.insertionSort fun left right => descriptorLess right left = false

/-- The state of the loop of `batchSIDescriptors`. -/
structure Descriptors (T : Type) where
  seen : List String := []
  seenOrdinals : List Int := []
  normalized : GoMap String Int := ∅
  out : List (TxDescriptor T) := []

/-- Without a table of ordinals, a transaction has that of its position. -/
def ordinalOf (ordinals : Option (GoMap String Int)) (txID : String) (index : Nat) :
    Except String Int :=
  match ordinals with
  | none => .ok (index + 1)
  | some table =>
    if table.get txID < 1 then
      .error ("batch-si missing paper transaction ordinal for " ++ txID)
    else .ok (table.get txID)

def addDescriptor (ordinals : Option (GoMap String Int)) (shardID : String) (acc : Descriptors T)
    (entry : T × Nat) : Except String (Descriptors T) := do
  let txID := (body entry.1).txID
  require (Text.trimSpace txID ≠ "") "batch-si requires non-empty transaction ids"
  require (txID ∉ acc.seen) ("batch-si duplicate transaction id " ++ txID)
  let ordinal ← ordinalOf ordinals txID entry.2
  require (ordinal ∉ acc.seenOrdinals)
    ("batch-si duplicate paper transaction ordinal " ++ Text.formatInt ordinal)
  let access := declaredAccess (body entry.1) shardID
  return {
    seen := txID :: acc.seen
    seenOrdinals := ordinal :: acc.seenOrdinals
    normalized := acc.normalized.put txID ordinal
    out := acc.out ++ [⟨entry.1, txID, access.1, access.2, ordinal⟩] }

/-- `batchSIDescriptors`: the descriptors by rank, and the ordinals of the transactions. -/
def descriptors (items : List T) (ordinals : Option (GoMap String Int)) (shardID : String) :
    Except String (List (TxDescriptor T) × GoMap String Int) := do
  let acc ← items.zipIdx.foldlM (addDescriptor body ordinals shardID) {}
  return (orderedDescriptors acc.out, acc.normalized)

/-- The ranks of the writers of each address, and their number. -/
def buildAWRT (items : List (TxDescriptor T)) : GoMap String (List Int) × Nat :=
  (items.foldl (fun awrt item =>
      item.writeKeys.foldl (fun awrt key => awrt.put key (awrt.get key ++ [item.idRank])) awrt) ∅,
    (items.map fun item => item.writeKeys.length).sum)

end Descriptors

/-! ## Partitions -/

structure Partition (T : Type) where
  number : Nat
  txs : List (TxDescriptor T)

section Partitions

variable {T : Type}

abbrev Batches (T : Type) := GoMap Nat (List (TxDescriptor T))

def Batches.add (batches : Batches T) (number : Nat) (item : TxDescriptor T) : Batches T :=
  batches.put number (batches.get number ++ [item])

/-- `batchSICompactPartitions`. -/
def compactPartitions (batches : Batches T) : List (Partition T) :=
  (batches.sortedKeys.filter fun number => batches.get number ≠ []).map fun number =>
    ⟨number, batches.get number⟩

def openBatch (table : GoMap String Nat) (key : String) : Nat :=
  max 1 (table.get key)

/-- `batchSIWRBPCandidateAvailable`. -/
def candidateAvailable (opportunity : GoMap Nat Bool) (currentBatch maximumBatch candidate : Nat) :
    Bool :=
  opportunity.get candidate ||
    if max 1 currentBatch = maximumBatch then candidate = maximumBatch
    else max 1 currentBatch ≤ candidate && candidate < maximumBatch

/-- What WRBP remembers: the next batch of each key and the earlier batches without a writer of
it. -/
structure WRBPState (T : Type) where
  currentBatch : GoMap String Nat := ∅
  opportunities : GoMap String (GoMap Nat Bool) := ∅
  batches : Batches T := ∅
  reuseCount : Nat := 0

/-- The closure `consider`: `best` is the least candidate so far that all keys allow, zero if
none. -/
def consider (s : WRBPState T) (keys : List String) (maximumBatch best candidate : Nat) : Nat :=
  if candidate < 1 ∨ (0 < best ∧ best ≤ candidate) then best
  else if keys.all fun key =>
      candidateAvailable (s.opportunities.get key) (openBatch s.currentBatch key) maximumBatch
        candidate then candidate
  else best

/-- `batchSIWRBPMinIntersection`. -/
def minIntersection (s : WRBPState T) (keys : List String) (maximumBatch : Nat) : Nat :=
  match keys with
  | [] => 1
  | first :: _ =>
    let current := openBatch s.currentBatch first
    let best := (s.opportunities.get first).sortedKeys.foldl (consider s keys maximumBatch) 0
    if current = maximumBatch then consider s keys maximumBatch best maximumBatch
    else (List.range' current (maximumBatch - current)).foldl (consider s keys maximumBatch) best

/-- A key gets a writer in batch `assigned`. -/
def assignKey (assigned : Nat) (s : WRBPState T) (key : String) : WRBPState T :=
  let value := openBatch s.currentBatch key
  if assigned < value then
    { s with
      opportunities := s.opportunities.put key ((s.opportunities.get key).delete assigned)
      reuseCount := s.reuseCount + 1 }
  else
    { s with
      -- the batches that the key skips are left for later writers
      opportunities := s.opportunities.put key ((List.range' value (assigned - value)).foldl
        (fun free candidate => free.put candidate true) (s.opportunities.get key))
      currentBatch := s.currentBatch.put key (assigned + 1) }

def maxBatch (table : GoMap String Nat) (keys : List String) : Nat :=
  keys.foldl (fun highest key => max highest (openBatch table key)) 1

def wrbpAssign (s : WRBPState T) (item : TxDescriptor T) : WRBPState T :=
  if item.writeKeys = [] then { s with batches := s.batches.add 1 item }
  else
    let highest := maxBatch s.currentBatch item.writeKeys
    let least := minIntersection s item.writeKeys highest
    let assigned := if least < 1 then highest else least
    let next := item.writeKeys.foldl (assignKey assigned) s
    { next with batches := next.batches.add assigned item }

/-- `batchSIWRBPPartition`. -/
def wrbpPartition (items : List (TxDescriptor T)) : List (Partition T) × Nat :=
  let s := (orderedDescriptors items).foldl wrbpAssign {}
  (compactPartitions s.batches, s.reuseCount)

def sequentialAssign (s : GoMap String Nat × Batches T) (item : TxDescriptor T) :
    GoMap String Nat × Batches T :=
  if item.writeKeys = [] then (s.1, s.2.add 1 item)
  else
    let assigned := maxBatch s.1 item.writeKeys
    (item.writeKeys.foldl (fun table key => table.put key (assigned + 1)) s.1,
      s.2.add assigned item)

/-- `batchSISequentialPartition`. -/
def sequentialPartition (items : List (TxDescriptor T)) : List (Partition T) :=
  compactPartitions ((orderedDescriptors items).foldl sequentialAssign (∅, ∅)).2

end Partitions

/-! ## Dependencies inside a batch -/

section

variable {T : Type} (items : List (TxDescriptor T))

def writerByKey : GoMap String String :=
  items.foldl (fun writers item =>
    item.writeKeys.foldl (fun writers key => writers.put key item.txID) writers) ∅

def foreignReads (item : TxDescriptor T) : List String :=
  item.readKeys.filter (· ∉ item.writeKeys)

/-- The other transaction of the batch that writes `key`. -/
def otherWriter (reader : TxDescriptor T) (key : String) : Option String :=
  let writerID := (writerByKey items).get key
  if writerID = "" ∨ writerID = reader.txID then none else some writerID

def dependencyEdges : GoMap String (GoMap String Bool) :=
  items.foldl (fun edges reader =>
    (foreignReads reader).foldl (fun edges key =>
      match otherWriter items reader key with
      | none => edges
      | some writerID => edges.putIn reader.txID writerID true) edges) ∅

def edgeCount (edges : GoMap String (GoMap String Bool)) : Nat :=
  (edges.sortedValues.map GoMap.len).sum

/-- The targets among `active` of the arcs of a transaction, in order. -/
def successors (edges : GoMap String (GoMap String Bool)) (active : List String) (id : String) :
    List String :=
  (edges.get id).sortedKeys.filter (· ∈ active)

/-- One pass of Kahn's algorithm over the transactions `active`. -/
def topologicalIDs (pop : List String → Option (String × List String))
    (push : String → List String → List String) (edges : GoMap String (GoMap String Bool))
    (active : List String) : List String :=
  let degree := Kahn.indegrees active (successors edges active)
  let ready := active.filter fun id => degree.get id = 0
  Kahn.loop pop push (successors edges active) active.length degree
    (ready.foldl (fun ready id => push id ready) []) []

def byIDs (ids : List String) : List (TxDescriptor T) :=
  ids.filterMap fun id => items.find? fun item => item.txID = id

end

/-! ## OFAS -/

section

variable {T : Type}

structure OFASTables where
  transactionReadCount : GoMap String Nat := ∅
  writerReadCount : GoMap String Nat := ∅
  maximumReaderOrder : GoMap String Int := ∅

def noteReaderOrder (table : GoMap String Int) (writerID : String) (order : Int) :
    GoMap String Int :=
  if table.get writerID < order then table.put writerID order else table

def countRead (items : List (TxDescriptor T)) (reader : TxDescriptor T) (t : OFASTables)
    (key : String) : OFASTables :=
  let counted := t.transactionReadCount.put reader.txID (t.transactionReadCount.get reader.txID + 1)
  match otherWriter items reader key with
  | none => { t with transactionReadCount := counted }
  | some writerID =>
    { transactionReadCount := counted
      writerReadCount := t.writerReadCount.put writerID (t.writerReadCount.get writerID + 1)
      maximumReaderOrder := noteReaderOrder t.maximumReaderOrder writerID reader.idRank }

def ofasTables (items : List (TxDescriptor T)) : OFASTables :=
  items.foldl (fun t reader => (foreignReads reader).foldl (countRead items reader) t) {}

/-- The closure `higherPriority`. -/
def higherPriority (t : OFASTables) (priorityMode : PriorityMode) (left right : TxDescriptor T) :
    Bool :=
  if priorityMode = .txid then left.txID < right.txID
  else if t.writerReadCount.get left.txID ≠ t.writerReadCount.get right.txID then
    t.writerReadCount.get left.txID < t.writerReadCount.get right.txID
  else if t.transactionReadCount.get left.txID ≠ t.transactionReadCount.get right.txID then
    t.transactionReadCount.get right.txID < t.transactionReadCount.get left.txID
  else if left.idRank ≠ right.idRank then left.idRank < right.idRank
  else left.txID < right.txID

structure OFASSort (T : Type) where
  sortOrder : GoMap String Int
  maximumReaderOrder : GoMap String Int
  isSorted : List String := []
  isAborted : List String := []
  aborted : List (TxDescriptor T) := []

/-- Give a transaction its place, or abort it if a writer that it reads from is already placed. -/
def sortTransaction (items : List (TxDescriptor T)) (s : OFASSort T) (item : TxDescriptor T) :
    OFASSort T :=
  let order := max (s.sortOrder.get item.txID) (s.maximumReaderOrder.get item.txID)
  let sortOrder := s.sortOrder.put item.txID order
  let writers := (foreignReads item).filterMap (otherWriter items item)
  if writers.any fun writerID => writerID ∉ s.isAborted && writerID ∈ s.isSorted &&
      s.maximumReaderOrder.get writerID < order then
    { s with
      sortOrder := sortOrder
      isAborted := item.txID :: s.isAborted
      aborted := s.aborted ++ [item] }
  else
    { s with
      sortOrder := sortOrder
      isSorted := item.txID :: s.isSorted
      maximumReaderOrder :=
        writers.foldl (fun table writerID => noteReaderOrder table writerID order)
        s.maximumReaderOrder }

/-- The closure `readyLess`. -/
def readyLess (sortOrder : GoMap String Int) (priority : List String) (left right : String) :
    Bool :=
  if sortOrder.get left ≠ sortOrder.get right then sortOrder.get left < sortOrder.get right
  else if priority.idxOf left ≠ priority.idxOf right then priority.idxOf left < priority.idxOf right
  else left < right

/-- The heap of ready transactions gives its least element. -/
def popLeast (less : String → String → Bool) : List String → Option (String × List String)
  | [] => none
  | id :: ids =>
    let least :=
      ids.foldl (fun least candidate => if less candidate least then candidate else least) id
    some (least, (id :: ids).erase least)

/-- Order the active transactions; a cycle loses the participant of lowest priority and the order
starts again.  Every round but the last removes a transaction. -/
def resolveCycles (order : List String → List String)
    (victim : List (TxDescriptor T) → Option (TxDescriptor T)) :
    Nat → List (TxDescriptor T) → List (TxDescriptor T) → List String × List (TxDescriptor T)
  | 0, _, aborted => ([], aborted)
  | rounds + 1, active, aborted =>
    let ids := order (active.map TxDescriptor.txID)
    if ids.length = active.length then (ids, aborted)
    else
      match victim (active.filter fun item => item.txID ∉ ids) with
      | none => ([], aborted)
      | some item =>
        resolveCycles order victim rounds (active.filter fun other => other.txID ≠ item.txID)
          (aborted ++ [item])

def lowestPriority (higher : TxDescriptor T → TxDescriptor T → Bool) :
    List (TxDescriptor T) → Option (TxDescriptor T)
  | [] => none
  | item :: items =>
    some (items.foldl (fun victim candidate => if higher victim candidate then candidate
      else victim) item)

/-- `batchSIOFASOrder`: the order of a batch, the transactions it loses and the number of arcs. -/
def ofasOrder (items : List (TxDescriptor T)) (priorityMode : PriorityMode) :
    List (TxDescriptor T) × List (TxDescriptor T) × Nat :=
  let tables := ofasTables items
  let edges := dependencyEdges items
  let priority := items.insertionSort fun left right =>
    higherPriority tables priorityMode right left = false
  let sorted := priority.foldl (sortTransaction items)
    { sortOrder := items.foldl (fun table item => table.put item.txID item.idRank) ∅
      maximumReaderOrder := tables.maximumReaderOrder }
  let less := readyLess sorted.sortOrder (priority.map TxDescriptor.txID)
  let resolved := resolveCycles (topologicalIDs (popLeast less) List.cons edges)
    (lowestPriority (higherPriority tables priorityMode)) (items.length + 1)
    (items.filter fun item => item.txID ∉ sorted.isAborted) sorted.aborted
  (byIDs items resolved.1, orderedDescriptors resolved.2, edgeCount edges)

end

/-! ## The dependency-graph ablation -/

section

variable {T : Type}

def popFirst : List String → Option (String × List String)
  | [] => none
  | id :: ids => some (id, ids)

/-- `batchSITopologicalOrder`: what could be ordered. -/
def topologicalOrder (items : List (TxDescriptor T)) : List String :=
  topologicalIDs popFirst (fun id ready => (ready ++ [id]).insertionSort (· ≤ ·))
    (dependencyEdges items) (items.map TxDescriptor.txID)

def greatestID (cyclic : List (TxDescriptor T)) : Option (TxDescriptor T) :=
  (cyclic.insertionSort fun left right => right.txID ≤ left.txID).head?

/-- `batchSIDependencyGraphOrder`: the graph is built anew after each victim. -/
def dependencyGraphLoop : Nat → List (TxDescriptor T) → List (TxDescriptor T) → Nat →
    List (TxDescriptor T) × List (TxDescriptor T) × Nat
  | 0, _, aborted, totalEdges => ([], aborted, totalEdges)
  | rounds + 1, active, aborted, totalEdges =>
    let ids := topologicalOrder active
    let total := totalEdges + edgeCount (dependencyEdges active)
    match (if ids.length = active.length then none
      else greatestID (active.filter fun item => item.txID ∉ ids)) with
    | none => (byIDs active ids, aborted, total)
    | some victim =>
      dependencyGraphLoop rounds (active.filter fun item => item.txID ≠ victim.txID)
        (aborted ++ [victim]) total

def dependencyGraphOrder (items : List (TxDescriptor T)) :
    List (TxDescriptor T) × List (TxDescriptor T) × Nat :=
  dependencyGraphLoop (items.length + 1) items [] 0

end

/-! ## Plans -/

structure Batch where
  batchNumber : Nat
  orderedTransactionIDs : List String
deriving DecidableEq, Repr

/-- The counters of a plan; the times that the planner measures are no part of its digest. -/
structure PlanMetrics where
  transactionCount : Int := 0
  candidateTransactionCount : Int := 0
  acceptedTransactionCount : Int := 0
  firstPassOFASAbortedTransactionCount : Int := 0
  readOnlyTransactionCount : Int := 0
  awrtAddressCount : Int := 0
  awrtWriteReferenceCount : Int := 0
  batchCount : Int := 0
  maximumBatchWidth : Int := 0
  writeOpportunityReuseCount : Int := 0
  dependencyEdgeCount : Int := 0
  ofasAbortedTransactionCount : Int := 0
  planningIterationCount : Int := 0
deriving DecidableEq, Repr

structure OrderEvidence where
  txID : String
  transactionOrdinal : Int
  batchNumber : Nat
  serializationPosition : Nat
deriving DecidableEq, Repr

structure PlanCore (T : Type) where
  algorithmID : String := "batch_si_execution_plan_v1"
  version : String := "1.2.0"
  blockHeight : Nat
  partitionMode : PartitionMode
  orderingMode : OrderingMode
  priorityMode : PriorityMode
  candidateTransactionIDs : List String
  deferredTransactions : List T
  transactionOrdinals : GoMap String Int
  orderEvidence : List OrderEvidence
  batches : List Batch
  metrics : PlanMetrics

structure Plan (T : Type) extends PlanCore T where
  planDigest : String

structure PlanningResult (T : Type) where
  plan : Plan T
  ordered : List T
  deferred : List T

structure PlannedBlock (T : Type) where
  shardID : String := ""
  height : Nat := 0
  blockHash : String := ""
  txList : List T := []
deriving DecidableEq, Repr

section Build

variable {T : Type}

/-- `batchSIOrderEvidence`: positions count from one over all batches. -/
def orderEvidence (ordinals : GoMap String Int) (batches : List Batch) : List OrderEvidence :=
  let entries := batches.flatMap fun batch =>
    batch.orderedTransactionIDs.map fun txID => (txID, batch.batchNumber)
  entries.zipIdx.map fun entry =>
    ⟨entry.1.1, ordinals.get entry.1.1, entry.1.2, entry.2 + 1⟩

def partitions (config : Config) (items : List (TxDescriptor T)) : List (Partition T) × Nat :=
  match config.partitionMode with
  | .sequential => (sequentialPartition items, 0)
  | _ => wrbpPartition items

def orderBatch (config : Config) (items : List (TxDescriptor T)) :
    List (TxDescriptor T) × List (TxDescriptor T) × Nat :=
  match config.orderingMode with
  | .dependencyGraph => dependencyGraphOrder items
  | _ => ofasOrder items config.priorityMode

def finalPartitions (config : Config) (split : List (Partition T)) : List (Partition T) :=
  (split.map fun partition => { partition with txs := (orderBatch config partition.txs).1 }).filter
    fun partition => partition.txs ≠ []

def deferredByID (config : Config) (split : List (Partition T)) : GoMap String (TxDescriptor T) :=
  split.foldl (fun table partition =>
    (orderBatch config partition.txs).2.1.foldl (fun table item => table.put item.txID item) table)
      ∅

def deferredItems (ordinals : GoMap String Int) (table : GoMap String (TxDescriptor T)) : List T :=
  (table.sortedValues.insertionSort fun left right =>
    ordinals.get left.txID < ordinals.get right.txID ∨
      (ordinals.get left.txID = ordinals.get right.txID ∧ left.txID ≤ right.txID)).map
    TxDescriptor.item

def planMetrics (items : List (TxDescriptor T)) (split : List (Partition T)) (reuse : Nat)
    (config : Config) : PlanMetrics :=
  let awrt := buildAWRT items
  let final := finalPartitions config split
  let deferred := (deferredByID config split).len
  { transactionCount := items.length
    candidateTransactionCount := items.length
    acceptedTransactionCount := items.length - deferred
    firstPassOFASAbortedTransactionCount := deferred
    readOnlyTransactionCount := items.countP fun item => item.writeKeys = []
    awrtAddressCount := awrt.1.len
    awrtWriteReferenceCount := awrt.2
    batchCount := final.length
    maximumBatchWidth := (final.map fun partition => partition.txs.length).foldl max 0
    writeOpportunityReuseCount := reuse
    dependencyEdgeCount := (split.map fun partition => (orderBatch config partition.txs).2.2).sum
    ofasAbortedTransactionCount := deferred
    planningIterationCount := 1 }

variable (body : T → SignedTransaction) (digest : PlanCore T → String)

/-- `batchSIPlanDigest`. -/
def planDigest (plan : PlanCore T) : String := digest plan

def batchesOf (final : List (Partition T)) : List Batch :=
  final.map fun partition =>
    { batchNumber := partition.number
      orderedTransactionIDs := partition.txs.map TxDescriptor.txID }

/-- The plan for descriptors in the order of their ranks. -/
def planDescriptors (b : PlannedBlock T) (config : Config) (items : List (TxDescriptor T))
    (ordinals : GoMap String Int) : PlanningResult T :=
  let split := partitions config items
  let batches := batchesOf (finalPartitions config split.1)
  let deferred := deferredItems ordinals (deferredByID config split.1)
  let core : PlanCore T :=
    { blockHeight := b.height
      partitionMode := config.partitionMode
      orderingMode := config.orderingMode
      priorityMode := config.priorityMode
      candidateTransactionIDs := b.txList.map fun item => (body item).txID
      deferredTransactions := deferred
      transactionOrdinals := ordinals
      orderEvidence := orderEvidence ordinals batches
      batches := batches
      metrics := planMetrics items split.1 split.2 config }
  { plan := { core with planDigest := planDigest digest core }
    ordered := (byIDs items (batches.flatMap Batch.orderedTransactionIDs)).map TxDescriptor.item
    deferred := deferred }

def buildBatchSIPlanWithOrdinals (b : PlannedBlock T) (rawConfig : Config)
    (ordinals : Option (GoMap String Int)) : Except String (PlanningResult T) := do
  let config := rawConfig.normalized
  config.validate
  let described ← descriptors body b.txList ordinals b.shardID
  return planDescriptors body digest b config described.1 described.2

/-- `BuildBatchSIPlan`: a transaction has the ordinal of its position in the block. -/
def buildBatchSIPlan (b : PlannedBlock T) (config : Config) : Except String (PlanningResult T) :=
  buildBatchSIPlanWithOrdinals body digest b config (some (b.txList.zipIdx.foldl (fun table entry =>
      if Text.trimSpace (body entry.1).txID ≠ "" then
        table.put (body entry.1).txID (entry.2 + 1)
      else table) ∅))

end Build

end ChainLab.Execution.BatchSI
