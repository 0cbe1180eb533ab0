import ChainLab.Data.GoMap

/-!
# Reads of another shard's state

A node that executes a block asks the home shard of a foreign key for its value.  The home node
answers from the snapshot it took for the block and the execution shard, and keeps the answer.  It
keeps 16 snapshots: for one more it drops the oldest, and all answers.
-/

namespace ChainLab.Fetch

open List GoMap

abbrev Snapshot := GoMap String String

/-- A request without a version.  `accessKind` is the mode of the access. -/
structure StateFetchRequest where
  blockHash : String
  key : String
  homeShard : String
  executionShard : String
  accessKind : String
  requiredVersion : Nat
deriving DecidableEq

structure StateFetchResponse where
  blockHash : String
  key : String
  qualifiedKey : String
  homeShard : String
  executionShard : String
  value : String := ""
  stateRoot : String := ""
  success : Bool := false
  error : String := ""
deriving DecidableEq

namespace StateFetchRequest

variable (digest : String → String) (r : StateFetchRequest)

def qualifiedKey : String := r.homeShard ++ "::" ++ r.key

def stateFetchWitnessKey : String :=
  digest ("|".intercalate [r.blockHash, r.homeShard, r.executionShard, r.key, r.accessKind,
    toString r.requiredVersion, "false"])

def stateFetchSnapshotKey : String :=
  digest ("|".intercalate [r.blockHash, r.homeShard, r.executionShard])

def refuse (error : String) : StateFetchResponse :=
  { blockHash := r.blockHash, key := r.key, qualifiedKey := r.qualifiedKey, homeShard := r.homeShard
    executionShard := r.executionShard, error }

def respond (snapshot : Snapshot) (stateRoot : String) : StateFetchResponse :=
  { r.refuse "" with value := snapshot.get r.qualifiedKey, stateRoot, success := true }

def block : String × String × String := (r.blockHash, r.homeShard, r.executionShard)

def read : StateFetchRequest := { r with accessKind := "", requiredVersion := 0 }

end StateFetchRequest

/-- A worker between the critical sections of `handleStateFetchRequest`. -/
inductive Worker where
  | asked (r : StateFetchRequest)
  | sampled (r : StateFetchRequest) (snapshot : Snapshot) (stateRoot : String)

/-- The home node with the requests it has answered; `earlier` are the states before `db`. -/
structure HomeNode where
  db : Snapshot
  earlier : List Snapshot := []
  snapshots : GoMap String Snapshot := ∅
  roots : GoMap String String := ∅
  order : List String := []
  witnesses : GoMap String StateFetchResponse := ∅
  workers : GoMap Nat Worker := ∅
  answers : List (StateFetchRequest × StateFetchResponse) := []

inductive Event where
  | commit (db : Snapshot)
  | request (worker : Nat) (r : StateFetchRequest)
  | sample (worker : Nat)
  | answer (worker : Nat)

def stateFetchSnapshotCacheLimit : Nat := 16

namespace HomeNode

variable (digest : String → String) (root : Snapshot → String) (partitionID : String) (n : HomeNode)

def evictOldest : HomeNode :=
  match n.order with
  | [] => n
  | oldest :: rest =>
    { n with
      order := rest
      snapshots := n.snapshots.delete oldest
      roots := n.roots.delete oldest
      witnesses := ∅ }

/-- `stateFetchSnapshotMu` is held from the look-up to the update, so this is one step. -/
def stateFetchSnapshot (r : StateFetchRequest) : HomeNode × Snapshot × String :=
  let key := r.stateFetchSnapshotKey digest
  match n.snapshots.find key with
  | some snapshot => (n, snapshot, n.roots.get key)
  | none =>
    let next := { n with
      snapshots := n.snapshots.put key n.db
      roots := n.roots.put key (root n.db)
      order := n.order ++ [key] }
    (if stateFetchSnapshotCacheLimit < next.order.length then next.evictOldest else next, n.db,
      root n.db)

/-- `handleStateFetchRequest`, a critical section at a time.  A worker that is busy takes up
nothing. -/
def step : Event → HomeNode
  | .commit db => { n with db, earlier := n.db :: n.earlier }
  | .request worker r =>
    if (n.workers.find worker).isSome then n
    else if r.homeShard ≠ "" ∧ r.homeShard ≠ partitionID then
      { n with answers := n.answers ++ [(r, r.refuse "wrong_home_shard")] }
    else
      match n.witnesses.find (r.stateFetchWitnessKey digest) with
      | some response => { n with answers := n.answers ++ [(r, response)] }
      | none => { n with workers := n.workers.put worker (.asked r) }
  | .sample worker =>
    match n.workers.find worker with
    | some (.asked r) =>
      let out := n.stateFetchSnapshot digest root r
      { out.1 with workers := n.workers.put worker (.sampled r out.2.1 out.2.2) }
    | _ => n
  | .answer worker =>
    match n.workers.find worker with
    | some (.sampled r snapshot stateRoot) =>
      let response := r.respond snapshot stateRoot
      { n with
        witnesses := n.witnesses.put (r.stateFetchWitnessKey digest) response
        workers := n.workers.delete worker
        answers := n.answers ++ [(r, response)] }
    | _ => n

def run (events : List Event) : HomeNode := events.foldl (step digest root partitionID) n

/-- All values read for a block by an execution shard are those of one committed snapshot. -/
def Stable : Prop :=
  ∀ block, ∃ snapshot ∈ n.db :: n.earlier, ∀ r response, (r, response) ∈ n.answers →
    response.success = true → r.block = block →
      response.value = snapshot.get r.qualifiedKey ∧ response.stateRoot = root snapshot

/-- A request has no witness key of a read of something else, and no snapshot is taken while the
cache is full. -/
def Fits : Event → Prop
  | .commit _ | .answer _ => True
  | .request _ r => ∀ answer ∈ n.answers, answer.1.stateFetchWitnessKey digest =
      r.stateFetchWitnessKey digest → answer.1.read = r.read
  | .sample worker => ∀ r, n.workers.find worker = some (.asked r) →
      n.snapshots.find (r.stateFetchSnapshotKey digest) = none →
        n.order.length < stateFetchSnapshotCacheLimit

def FitsAll : HomeNode → List Event → Prop
  | _, [] => True
  | n, event :: events =>
    n.Fits digest event ∧ FitsAll (n.step digest root partitionID event) events

def Reads (r : StateFetchRequest) (response : StateFetchResponse) : Prop :=
  ∃ snapshot, n.snapshots.find (r.stateFetchSnapshotKey digest) = some snapshot ∧
    response = r.respond snapshot (root snapshot)

structure Sound : Prop where
  cached : ∀ key snapshot, n.snapshots.find key = some snapshot →
    n.roots.get key = root snapshot ∧ snapshot ∈ n.db :: n.earlier
  sampled : ∀ worker r snapshot stateRoot,
    n.workers.find worker = some (.sampled r snapshot stateRoot) →
    n.Reads digest root r (r.respond snapshot stateRoot)
  answered : ∀ r response, (r, response) ∈ n.answers → response.success = true →
    n.Reads digest root r response
  witnesses : ∀ key response, n.witnesses.find key = some response →
    response.success = true ∧ ∃ r, (r, response) ∈ n.answers ∧ r.stateFetchWitnessKey digest = key

variable {digest root partitionID} {n n' : HomeNode} {r r' : StateFetchRequest}
  {response : StateFetchResponse}

lemma Reads.of_read_eq (h : n.Reads digest root r response) (heq : r.read = r'.read) :
    n.Reads digest root r' response := by
  change n.Reads digest root r'.read response
  rw [← heq]
  exact h

section

variable (hs : n.Sound digest root)

include hs

lemma Sound.answer (hread : response.success = true → n.Reads digest root r response) :
    ({ n with answers := n.answers ++ [(r, response)] } : HomeNode).Sound digest root where
  __ := hs
  answered r' response' hmem hsucc := by
    rcases mem_append.1 hmem with hmem | hmem
    · exact hs.answered r' response' hmem hsucc
    · cases mem_singleton.1 hmem
      exact hread hsucc
  witnesses key response hfind := by
    obtain ⟨hsucc, r, hmem, hkey⟩ := hs.witnesses key response hfind
    exact ⟨hsucc, r, mem_append_left _ hmem, hkey⟩

lemma Sound.work {snapshots : GoMap String Snapshot}
    {roots : GoMap String String} {order : List String} {worker : Nat} {w : Worker}
    (hgrows : ∀ key snapshot, n.snapshots.find key = some snapshot →
      snapshots.find key = some snapshot)
    (hcached : ∀ key snapshot, snapshots.find key = some snapshot →
      roots.get key = root snapshot ∧ snapshot ∈ n.db :: n.earlier)
    (hw : ∀ r snapshot stateRoot, w = .sampled r snapshot stateRoot →
      snapshots.find (r.stateFetchSnapshotKey digest) = some snapshot ∧ stateRoot = root snapshot) :
    ({ n with snapshots, roots, order, workers := n.workers.put worker w } : HomeNode).Sound
      digest root where
  cached := hcached
  sampled worker' r snapshot stateRoot hfind := by
    obtain ⟨rfl, rfl⟩ | hfind := of_find_put hfind
    · obtain ⟨hsnap, rfl⟩ := hw r snapshot stateRoot rfl
      exact ⟨snapshot, hsnap, rfl⟩
    · exact (hs.sampled _ _ _ _ hfind).imp fun _ h => ⟨hgrows _ _ h.1, h.2⟩
  answered r response hmem hsucc :=
    (hs.answered r response hmem hsucc).imp fun _ h => ⟨hgrows _ _ h.1, h.2⟩
  witnesses := hs.witnesses

lemma Sound.stateFetchSnapshot {worker : Nat}
    (hroom : n.snapshots.find (r.stateFetchSnapshotKey digest) = none →
      n.order.length < stateFetchSnapshotCacheLimit) :
    let out := n.stateFetchSnapshot digest root r
    ({ out.1 with workers := n.workers.put worker (.sampled r out.2.1 out.2.2) } : HomeNode).Sound
      digest root := by
  cases hfind : n.snapshots.find (r.stateFetchSnapshotKey digest) with
  | some snapshot =>
    simp only [HomeNode.stateFetchSnapshot, hfind]
    apply hs.work (fun _ _ h => h) hs.cached
    rintro _ _ _ ⟨⟩
    exact ⟨hfind, (hs.cached _ _ hfind).1⟩
  | none =>
    have hkeep :
        ¬ stateFetchSnapshotCacheLimit < (n.order ++ [r.stateFetchSnapshotKey digest]).length := by
      rw [length_append, length_singleton]
      exact Nat.not_lt.2 (hroom hfind)
    simp only [HomeNode.stateFetchSnapshot, hfind, hkeep, if_false]
    apply hs.work
    · grind
    · intro key snapshot h
      have hold := hs.cached key snapshot
      grind
    · rintro _ _ _ ⟨⟩
      exact ⟨find_put_self .., rfl⟩

lemma Sound.step {event : Event} (hfits : n.Fits digest event) :
    (n.step digest root partitionID event).Sound digest root := by
  cases event with
  | commit db =>
    exact
      { hs with
        cached := fun key snapshot hfind =>
          (hs.cached key snapshot hfind).imp_right (mem_cons_of_mem db) }
  | request worker r =>
    simp only [HomeNode.step]
    split
    · exact hs
    split
    · exact hs.answer fun hsucc => by cases hsucc
    split
    next response hfind =>
      obtain ⟨hsucc, r', hmem, hkey⟩ := hs.witnesses _ response hfind
      exact hs.answer fun _ => (hs.answered _ _ hmem hsucc).of_read_eq (hfits _ hmem hkey)
    next => exact hs.work (fun _ _ h => h) hs.cached (by rintro _ _ _ ⟨⟩)
  | sample worker =>
    simp only [HomeNode.step]
    split
    next r hold => exact hs.stateFetchSnapshot (hfits r hold)
    next => exact hs
  | answer worker =>
    simp only [HomeNode.step]
    split
    next r snapshot stateRoot hold =>
      have hs' := hs.answer fun _ => hs.sampled _ _ _ _ hold
      refine ⟨hs'.cached, ?_, hs'.answered, ?_⟩
      · intro worker' r' snapshot' stateRoot' hfind
        exact hs.sampled _ _ _ _ (of_find_delete hfind)
      · intro key response hfind
        obtain ⟨hkey, rfl⟩ | hfind := of_find_put hfind
        · exact ⟨rfl, r, by simp, hkey.symm⟩
        · exact hs'.witnesses key response hfind
    next => exact hs

lemma Sound.run {events : List Event} (hfits : FitsAll digest root partitionID n events) :
    (n.run digest root partitionID events).Sound digest root := by
  induction events generalizing n with
  | nil => exact hs
  | cons event events ih => exact ih (hs.step hfits.1) hfits.2

lemma Sound.stable : n.Stable root := by
  intro block
  by_cases hread : ∃ r response, (r, response) ∈ n.answers ∧ response.success = true ∧
    r.block = block
  · obtain ⟨r, response, hmem, hsucc, rfl⟩ := hread
    obtain ⟨snapshot, hfind, -⟩ := hs.answered r response hmem hsucc
    refine ⟨snapshot, (hs.cached _ _ hfind).2, ?_⟩
    intro r' response' hmem' hsucc' hblk
    obtain ⟨snapshot', hfind', rfl⟩ := hs.answered r' response' hmem' hsucc'
    have hkey : r'.stateFetchSnapshotKey digest = r.stateFetchSnapshotKey digest := by
      simp only [StateFetchRequest.block, Prod.mk.injEq] at hblk
      simp only [StateFetchRequest.stateFetchSnapshotKey, hblk]
    rw [hkey, hfind] at hfind'
    cases hfind'
    exact ⟨rfl, rfl⟩
  · refine ⟨n.db, mem_cons_self, ?_⟩
    intro r response hmem hsucc hblk
    exact absurd ⟨r, response, hmem, hsucc, hblk⟩ hread

end

/-- Reads for a block are stable in every run in which the snapshots that are taken fit in the
cache. -/
theorem remote_reads_stable (db : Snapshot) (events : List Event)
    (hfits : FitsAll digest root partitionID { db } events) :
    (run digest root partitionID { db } events).Stable root := by
  have hstart : Sound digest root { db } :=
    ⟨fun _ _ h => by simp at h, fun _ _ _ _ h => by simp at h, fun _ _ h => (nomatch h),
      fun _ _ h => by simp at h⟩
  exact (hstart.run hfits).stable

/-! The shard `s` is the home of `k`, and `t` executes. -/

def rootOf (s : Snapshot) : String := s.get "s::k"

def stateOf (value : String) : Snapshot := (∅ : Snapshot).put "s::k" value

def readOf (block : String) : StateFetchRequest := ⟨block, "k", "s", "t", "read", 0⟩

/-- Two workers read `k` for one block, with a commit between them. -/
theorem remote_reads_stable_two : (run id rootOf "s" { db := stateOf "1" }
    [.request 0 (readOf "a"), .request 1 (readOf "a"), .sample 0, .answer 0, .commit (stateOf "2"),
      .sample 1, .answer 1]).Stable rootOf := by
  apply remote_reads_stable
  refine ⟨?_, ?_, ?_, trivial, trivial, ?_, trivial, trivial⟩
  · exact fun _ hmem => nomatch hmem
  · exact fun _ hmem => nomatch hmem
  · exact fun _ _ _ => by decide +kernel
  · exact fun _ _ _ => by decide +kernel

def fetch (block : String) : List Event := [.request 0 (readOf block), .sample 0, .answer 0]

/-- A replica of `t` reads `k` for block `a`; another one does after 16 other blocks and a
commit. -/
def lateRead : HomeNode :=
  run id rootOf "s" { db := stateOf "1" } (fetch "a" ++ (List.range 16).flatMap
    (fun block => fetch (toString block)) ++ .commit (stateOf "2") :: fetch "a")

theorem late_read_differs : ¬ lateRead.Stable rootOf := by
  intro h
  obtain ⟨snapshot, -, hread⟩ := h (readOf "a").block
  have hfirst := hread _ ((readOf "a").respond (stateOf "1") "1") (by decide +kernel) rfl rfl
  have hlate := hread _ ((readOf "a").respond (stateOf "2") "2") (by decide +kernel) rfl rfl
  exact absurd (hfirst.2.trans hlate.2.symm) (by decide)

end HomeNode
end ChainLab.Fetch
