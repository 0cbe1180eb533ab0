import ChainLab.Storage.History

/-!
# Durable commits

Runs of a block store, from an empty directory: commits that succeed, that fail with a part of their
appends written, or that a crash interrupts; rollbacks to a checkpoint; and reads.  A crash loses
the index of the range reader, which is kept in memory.
-/

namespace ChainLab.Storage

open List Journal LineFormat
open Ledger

variable {β : Type}

inductive Step (β : Type) where
  | commit (b : DurableBlock β) (result : Execution)
  | fail (b : DurableBlock β) (result : Execution) (stage : Stage) (written : Nat)
  | crash (b : DurableBlock β) (result : Execution) (stage : Stage) (written : Nat)
  | rollback (checkpoint : Checkpoint)
  | read (fromHeight toHeight : Nat)

/-! ## Runs -/

section

variable (fmt : StoreFormat β) (nodeID shardID : String)

def Store.step (s : Store) : Step β → Store
  | .commit b result => { s with files := (durableCommit fmt nodeID shardID s.files b result).1 }
  | .fail b result stage written =>
    { s with files := durableAppends fmt nodeID shardID s.files b result stage written }
  | .crash b result stage written =>
    { files := durableAppends fmt nodeID shardID s.files b result stage written }
  | .rollback checkpoint => { s with files := (rollback s.files checkpoint).getD s.files }
  | .read fromHeight toHeight => (readCommittedRange fmt s fromHeight toHeight).1

/-- What a commit that stops in a stage leaves.  Only a whole marker line makes the block a
committed one. -/
def Ledger.attempt (files : Files) (l : Ledger β) (b : DurableBlock β) (result : Execution) :
    Stage → Nat → Ledger β
  | .receipts, _ => l
  | .txIndex, written =>
    let txs := fmt.txIndex.cut (indexRecords result) written
    { l with txs := l.txs ++ txs.1, txTail := txs.2 }
  | .blocks, written =>
    match storedRow fmt b with
    | some (some stored) =>
      let rows := fmt.blocks.cut [stored] written
      { l with txs := l.txs ++ indexRecords result, rows := l.rows ++ rows.1, blockTail := rows.2 }
    | _ => { l with txs := l.txs ++ indexRecords result }
  | .markers, written =>
    match storedRow fmt b with
    | some (some stored) =>
      let marker := commitMarker fmt nodeID shardID files b stored result
      let markers := fmt.markers.cut [marker] written
      { l with
        txs := l.txs ++ indexRecords result
        rows := l.rows ++ [stored]
        committed := l.committed ++
          markers.1.map fun marker => ⟨{ b with stateCommit := true }, stored, result, marker⟩
        markerTail := markers.2 }
    | _ => { l with txs := l.txs ++ indexRecords result }

/-- The rows within the sizes of a checkpoint. -/
def Ledger.rollback (l : Ledger β) (checkpoint : Checkpoint) : Ledger β :=
  let txs := fmt.txIndex.cut l.txs (checkpoint.txIndex.getD 0)
  let rows := fmt.blocks.cut l.rows (checkpoint.blocks.getD 0)
  let markers := fmt.markers.cut (l.committed.map Committed.marker) (checkpoint.markers.getD 0)
  ⟨txs.1, rows.1, l.committed.take markers.1.length, txs.2, rows.2, markers.2⟩

def lastStage (b : DurableBlock β) : Stage :=
  match storedRow fmt b with
  | some (some _) => .markers
  | _ => .blocks

def lastBytes (files : Files) (b : DurableBlock β) (result : Execution) : Nat :=
  match storedRow fmt b with
  | some (some stored) =>
    (fmt.markers.line (commitMarker fmt nodeID shardID files b stored result)).length
  | _ => 0

def Ledger.step (files : Files) (l : Ledger β) : Step β → Ledger β
  | .commit b result =>
    l.attempt fmt nodeID shardID files b result (lastStage fmt b)
      (lastBytes fmt nodeID shardID files b result)
  | .fail b result stage written => l.attempt fmt nodeID shardID files b result stage written
  | .crash b result stage written => l.attempt fmt nodeID shardID files b result stage written
  | .rollback checkpoint => l.rollback fmt checkpoint
  | .read _ _ => l

def stepBoth (p : Store × Ledger β) (step : Step β) : Store × Ledger β :=
  (p.1.step fmt nodeID shardID step, p.2.step fmt nodeID shardID p.1.files step)

/-- Store and ledger when step number `i` is made. -/
abbrev before (steps : List (Step β)) (i : Nat) : Store × Ledger β :=
  Run.stateAt (stepBoth fmt nodeID shardID) ({}, {}) steps i

/-! ## Conditions -/

/-- The commit of a block above the committed ones, after whole rows.  Its evidence is written as it
is and restored from the row, and no row has its hash: a row that an earlier attempt has left was
rolled back. -/
@[mk_iff]
structure Chained (l : Ledger β) (b : DurableBlock β) : Prop where
  whole : l.blockTail = [] ∧ l.markerTail = []
  restores : ∃ stored ∈ blockForDurableStorage fmt.compression { b with stateCommit := true },
    fmt.compression.row stored = some stored ∧
    restoreBlockFromDurableStorage fmt.compression stored = .ok { b with stateCommit := true } ∧
    (fmt.blocks.encode stored).length < maxCommittedBlockRecordBytes
  height_ne : b.height ≠ 0
  hash_ne : b.blockHash ≠ ""
  above : ∀ c ∈ l.committed, c.stored.height < b.height
  fresh : ∀ stored ∈ l.rows, stored.blockHash ≠ b.blockHash

/-- The file does not grow to the indexed size from below. -/
def KeepsStale (s : Store) (files : Files) : Prop :=
  s.index.indexedSize ≤ (s.files.blocks.getD []).length ∨
    (files.blocks.getD []).length < s.index.indexedSize

/-- The checkpoint is of whole rows that are still there, and a marker is kept with its block
only. -/
@[mk_iff]
structure Truncates (files : Files) (l : Ledger β) (checkpoint : Checkpoint) : Prop where
  succeeds : (rollback files checkpoint).isSome = true
  blocks : checkpoint.blocks.getD 0 ≤ (fmt.blocks.file l.rows).length
  markers : checkpoint.markers.getD 0 ≤ (fmt.markers.file (l.committed.map Committed.marker)).length
  kept : ∀ c ∈ (l.rollback fmt checkpoint).committed,
    c.marker.blockSourceSize ≤ checkpoint.blocks.getD 0

/-- The condition on a step, as far as blocks are concerned. -/
def Admissible (s : Store) (l : Ledger β) : Step β → Prop
  | .commit b result =>
    Chained fmt l b ∧ KeepsStale s (durableCommit fmt nodeID shardID s.files b result).1
  | .fail b result stage written =>
    Chained fmt l b ∧
      KeepsStale s (durableAppends fmt nodeID shardID s.files b result stage written)
  | .crash b _ _ _ => Chained fmt l b
  | .rollback checkpoint => Truncates fmt s.files l checkpoint
  | .read fromHeight toHeight =>
    l.blockTail = [] ∧ s.files.blocks.isSome = true ∧ 0 < fromHeight ∧ fromHeight ≤ toHeight

/-- The receipts are those of the block, also of an earlier attempt to commit it. -/
@[mk_iff]
structure Receipted (l : Ledger β) (b : DurableBlock β) (result : Execution) : Prop where
  whole : l.txTail = []
  hash : ∀ receipt ∈ result.receipts, receipt.blockHash = b.blockHash
  short : ∀ record ∈ indexRecords result, (fmt.txIndex.encode record).length < scanLimit
  same : ∀ record ∈ l.txs, record.blockHash = b.blockHash →
    ∃ receipt ∈ result.receipts, receipt.txID = record.txID

def TxsPresent (l : Ledger β) : Prop :=
  ∀ c ∈ l.committed, ∀ receipt ∈ c.result.receipts,
    ∃ record ∈ l.txs, record.txID = receipt.txID ∧ record.blockHash = c.stored.blockHash

/-- The condition on a step, as far as transactions are concerned. -/
def Indexed (l : Ledger β) : Step β → Prop
  | .commit b result | .fail b result _ _ | .crash b result _ _ => Receipted fmt l b result
  | .rollback checkpoint =>
    checkpoint.txIndex.getD 0 ≤ (fmt.txIndex.file l.txs).length ∧
      TxsPresent (l.rollback fmt checkpoint)
  | .read _ _ => l.txTail = []

section Decidable

variable {fmt nodeID shardID} [DecidableEq β] {files : Files} {s : Store} {l : Ledger β}

instance (b : DurableBlock β) : Decidable (Chained fmt l b) :=
  decidable_of_iff' _ (chained_iff ..)

instance (checkpoint : Checkpoint) : Decidable (Truncates fmt files l checkpoint) :=
  decidable_of_iff' _ (truncates_iff ..)

instance (b : DurableBlock β) (result : Execution) : Decidable (Receipted fmt l b result) :=
  decidable_of_iff' _ (receipted_iff ..)

instance : Decidable (KeepsStale s files) :=
  inferInstanceAs (Decidable (_ ∨ _))

instance : Decidable (TxsPresent l) :=
  inferInstanceAs (Decidable (∀ c ∈ l.committed, _))

instance : ∀ step, Decidable (Admissible fmt nodeID shardID s l step)
  | .commit .. | .fail .. => inferInstanceAs (Decidable (_ ∧ _))
  | .crash .. => inferInstanceAs (Decidable (Chained ..))
  | .rollback _ => inferInstanceAs (Decidable (Truncates ..))
  | .read .. => inferInstanceAs (Decidable (_ ∧ _))

instance : ∀ step, Decidable (Indexed fmt l step)
  | .commit .. | .fail .. | .crash .. => inferInstanceAs (Decidable (Receipted ..))
  | .rollback _ => inferInstanceAs (Decidable (_ ∧ _))
  | .read .. => inferInstanceAs (Decidable (_ = _))

end Decidable

end

variable {fmt : StoreFormat β} {nodeID shardID : String} {files : Files} {l : Ledger β} {s : Store}

/-! ## Commits -/

lemma durableCommit_eq (files : Files) (b : DurableBlock β) (result : Execution) :
    (durableCommit fmt nodeID shardID files b result).1 =
      durableAppends fmt nodeID shardID files b result (lastStage fmt b)
        (lastBytes fmt nodeID shardID files b result) := by
  rcases hstor : storedRow fmt b with _ | _ | stored
  all_goals simp only [durableCommit, lastStage, lastBytes, hstor]

variable {b stored : DurableBlock β} {checkpoint : Checkpoint}

/-- The row of a block is `stored`. -/
abbrev Stores (fmt : StoreFormat β) (b stored : DurableBlock β) : Prop :=
  storedRow fmt b = some (some stored)

lemma Chained.stores (h : Chained fmt l b) : ∃ stored, Stores fmt b stored := by
  obtain ⟨stored, hstor, hrow, -⟩ := h.restores
  exact ⟨stored, by rw [Stores, storedRow, Option.mem_def.1 hstor, Option.map_some, hrow]⟩

lemma Chained.readable (h : Chained fmt l b) (hstor : Stores fmt b stored) :
    Readable fmt stored ∧ fmt.restored stored = { b with stateCommit := true } ∧
      stored.height = b.height ∧ stored.blockHash = b.blockHash := by
  obtain ⟨stored', hstor', hrow, hrestore, hshort⟩ := h.restores
  have heq : stored' = stored := by
    rw [Stores, storedRow, Option.mem_def.1 hstor', Option.map_some, hrow] at hstor
    exact Option.some.inj (Option.some.inj hstor)
  subst heq
  have hrestored : fmt.restored stored' = { b with stateCommit := true } := by
    simp only [StoreFormat.restored, hrestore]
  obtain ⟨hht, hhash⟩ := restore_fields hrestore
  refine ⟨⟨hrow, hrestored ▸ hrestore, ?_, ?_, hshort⟩, hrestored, hht, hhash⟩
  · rw [hht]
    exact h.height_ne
  · rw [hhash]
    exact h.hash_ne

lemma Consistent.appendRow (hl : Consistent fmt l) (h : Chained fmt l b)
    (hstor : Stores fmt b stored) {l' : Ledger β} (hrows : l'.rows = l.rows ++ [stored])
    (hcomm : l'.committed = l.committed) : Consistent fmt l' := by
  obtain ⟨hreadable, -, hht, hhash⟩ := h.readable hstor
  refine ⟨?_, ?_, hcomm ▸ hl.increasing, ?_⟩
  · rw [hrows]
    exact forall_mem_append.2 ⟨hl.readable, forall_mem_singleton.2 hreadable⟩
  · intro c hc
    rw [hcomm] at hc
    obtain ⟨pre, post, hplaced⟩ := hl.placed c hc
    refine ⟨pre, post ++ [stored], { hplaced with rows_eq := ?_, above := ?_ }⟩
    · rw [hrows, hplaced.rows_eq]
      simp
    · refine forall_mem_append.2 ⟨hplaced.above, forall_mem_singleton.2 ?_⟩
      rw [hht]
      exact h.above c hc
  · rw [hrows]
    refine pairwise_append.2 ⟨hl.distinct, pairwise_singleton _ _,
      fun other hother last hlast => ?_⟩
    rw [mem_singleton.1 hlast, hhash]
    exact h.fresh other hother

lemma Chained.placed (h : Chained fmt l b) (nodeID shardID : String) (hfiles : Holds fmt files l)
    (hstor : Stores fmt b stored) (result : Execution) :
    Placed fmt (l.rows ++ [stored]) ⟨{ b with stateCommit := true }, stored, result,
        commitMarker fmt nodeID shardID files b stored result⟩ l.rows [] := by
  obtain ⟨-, hrestored, hht, hhash⟩ := h.readable hstor
  have hsize : (files.blocks.getD []).length = (fmt.blocks.file l.rows).length := by
    rw [hfiles.blocks, h.whole.1, append_nil]
  refine ⟨rfl, ?_, rfl, rfl, by simp, ?_, hrestored, hht.symm, hhash.symm⟩
  · exact congrArg Nat.cast hsize
  · simp [commitMarker, CommitMarker.row, MarkerRow.valid, h.hash_ne]

lemma cut_singleton {α : Type} (c : LineFormat α) (a : α) (n : Nat) :
    c.cut [a] n = ([a], []) ∨ c.cut [a] n = ([], (c.line a).take n) := by
  unfold LineFormat.cut
  split
  · exact .inl rfl
  · exact .inr rfl

lemma attempt_cases (nodeID shardID : String) (h : Chained fmt l b) (hfiles : Holds fmt files l)
    (result : Execution) (stage : Stage) (written : Nat) {l' : Ledger β}
    (hl' : l.attempt fmt nodeID shardID files b result stage written = l') :
    ∃ stored rows marked, Stores fmt b stored ∧ l'.rows = l.rows ++ rows ∧
      l'.committed = l.committed ++ marked ∧
      ((rows = [] ∧ marked = []) ∨ (rows = [stored] ∧ marked = []) ∨
        (rows = [stored] ∧ marked = [⟨{ b with stateCommit := true }, stored, result,
          commitMarker fmt nodeID shardID files b stored result⟩])) ∧
      Holds fmt (durableAppends fmt nodeID shardID files b result stage written) l' := by
  subst hl'
  obtain ⟨stored, hstor⟩ := h.stores
  have hblks := hfiles.blocks
  have hmrks := hfiles.markers
  rw [h.whole.1, append_nil] at hblks
  rw [h.whole.2] at hmrks
  cases stage with
  | receipts | txIndex =>
    refine ⟨stored, [], [], hstor, by simp [attempt], by simp [attempt], .inl ⟨rfl, rfl⟩, ?_⟩
    exact ⟨hfiles.legacy, hfiles.blocks, hfiles.markers, hfiles.tail⟩
  | blocks =>
    -- a row that is not written to its end is a tail
    have htake := file_take (c := fmt.blocks) [stored] written
    rw [file_singleton] at htake
    refine ⟨stored, (fmt.blocks.cut [stored] written).1, [], hstor, by simp [attempt, hstor],
      by simp [attempt, hstor], ?_, ?_⟩
    · rcases cut_singleton fmt.blocks stored written with hcut | hcut
      · exact .inr (.inl ⟨by rw [hcut], rfl⟩)
      · exact .inl ⟨by rw [hcut], rfl⟩
    · refine ⟨hfiles.legacy, ?_, ?_, ?_⟩
      · simp only [durableAppends, appendRow, attempt, hstor, appendFile, Option.getD_some,
          Option.elim_some, hblks, htake, file_append, append_assoc]
      · simp only [durableAppends, attempt, hstor]
        exact hfiles.markers
      · simp only [attempt, hstor]
        exact hfiles.tail
  | markers =>
    have htake := file_take (c := fmt.markers.toLineFormat)
      [commitMarker fmt nodeID shardID files b stored result] written
    rw [file_singleton] at htake
    refine ⟨stored, [stored], _, hstor, by simp [attempt, hstor],
      by simp only [attempt, hstor]; rfl, ?_, ?_⟩
    · rcases cut_singleton fmt.markers.toLineFormat
        (commitMarker fmt nodeID shardID files b stored result) written with hcut | hcut
      · exact .inr (.inr ⟨rfl, by rw [hcut]; rfl⟩)
      · exact .inr (.inl ⟨rfl, by rw [hcut]; rfl⟩)
    · refine ⟨?_, ?_, ?_, ?_⟩
      · simp only [durableAppends, hstor]
        exact hfiles.legacy
      · simp only [durableAppends, attempt, hstor, appendFile, Option.getD_some, hblks,
          h.whole.1, file_append, file_singleton, append_nil]
      · simp only [durableAppends, attempt, hstor, appendFile, Option.getD_some, hmrks,
          htake, map_append, map_map, file_append, append_assoc]
        simp [Function.comp_def]
      · simp only [attempt, hstor]
        exact newline_not_mem_cut _ _

/-! ## The invariant -/

/-- The index covers a prefix of the rows, or is beyond the end of the file. -/
def Coherent (fmt : StoreFormat β) (s : Store) (l : Ledger β) : Prop :=
  (s.files.blocks.getD []).length < s.index.indexedSize ∨
    ∃ indexed, Covers fmt s.index l.rows indexed l.committed

structure Sound (fmt : StoreFormat β) (s : Store) (l : Ledger β) : Prop where
  holds : Holds fmt s.files l
  consistent : Consistent fmt l
  coherent : Coherent fmt s l

lemma sound_empty (fmt : StoreFormat β) : Sound fmt {} {} where
  holds := ⟨rfl, rfl, rfl, not_mem_nil⟩
  consistent := ⟨by simp, by simp, .nil, .nil⟩
  coherent := .inr ⟨[], covers_empty fmt [] (by simp)⟩

variable {result : Execution} {stage : Stage} {written : Nat}

lemma Consistent.attempt (hl : Consistent fmt l) (h : Chained fmt l b)
    (hfiles : Holds fmt files l) :
    Consistent fmt (l.attempt fmt nodeID shardID files b result stage written) := by
  rcases attempt_cases nodeID shardID h hfiles result stage written rfl with
    ⟨stored, rows, marked, hstor, hrows, hcomm, hcases, -⟩
  rcases hcases with ⟨rfl, rfl⟩ | ⟨rfl, rfl⟩ | ⟨rfl, rfl⟩
  · rw [append_nil] at hrows hcomm
    exact ⟨hrows ▸ hl.readable, hrows ▸ hcomm ▸ hl.placed, hcomm ▸ hl.increasing,
      hrows ▸ hl.distinct⟩
  · rw [append_nil] at hcomm
    exact hl.appendRow h hstor hrows hcomm
  · have hrow : Consistent fmt { l with rows := l.rows ++ [stored] } := hl.appendRow h hstor rfl rfl
    refine ⟨hrows ▸ hrow.readable, ?_, ?_, hrows ▸ hrow.distinct⟩
    · rw [hcomm, hrows]
      refine forall_mem_append.2 ⟨hrow.placed, forall_mem_singleton.2 ?_⟩
      exact ⟨l.rows, [], h.placed nodeID shardID hfiles hstor result⟩
    · rw [hcomm]
      refine pairwise_append.2 ⟨hl.increasing, pairwise_singleton _ _, ?_⟩
      intro c hc c' hc'
      rw [mem_singleton.1 hc', (h.readable hstor).2.2.1]
      exact h.above c hc

lemma Covers.attempt {idx : RangeIndex} {indexed : List (DurableBlock β)}
    (h : Covers fmt idx l.rows indexed l.committed) (hchain : Chained fmt l b)
    (hfiles : Holds fmt files l) :
    Covers fmt idx (l.attempt fmt nodeID shardID files b result stage written).rows indexed
      (l.attempt fmt nodeID shardID files b result stage written).committed := by
  rcases attempt_cases nodeID shardID hchain hfiles result stage written rfl with
    ⟨stored, rows, marked, hstor, hrows, hcomm, hcases, -⟩
  rw [hrows, hcomm]
  refine ⟨h.initial.trans (prefix_append _ _), h.size, h.spans, ?_⟩
  intro c hc hsize
  rcases mem_append.1 hc with hold | hnew
  · exact h.finds c hold hsize
  -- the row of a new marker is behind the indexed size
  rcases hcases with ⟨-, rfl⟩ | ⟨-, rfl⟩ | ⟨-, rfl⟩
  · cases hnew
  · cases hnew
  have hc := mem_singleton.1 hnew
  have hplaced := hchain.placed nodeID shardID hfiles hstor result
  rw [← hc] at hplaced
  have hle := length_file_le (c := fmt.blocks) h.initial
  have hpos := length_line_pos (c := fmt.blocks) c.stored
  have hoffset := hplaced.offset
  have hlen := hplaced.length
  rw [hplaced.sourceSize, h.size] at hsize
  omega

lemma Sound.crash (h : Sound fmt s l) (hchain : Chained fmt l b) :
    Sound fmt { files := durableAppends fmt nodeID shardID s.files b result stage written }
      (l.attempt fmt nodeID shardID s.files b result stage written) where
  holds := by
    rcases attempt_cases nodeID shardID hchain h.holds result stage
      written rfl with ⟨-, -, -, -, -, -, -, hholds⟩
    exact hholds
  consistent := h.consistent.attempt hchain h.holds
  coherent := .inr ⟨[], covers_empty fmt _ (h.consistent.attempt hchain h.holds).placed⟩

lemma Sound.attempt (h : Sound fmt s l) (hchain : Chained fmt l b)
    (hstale : KeepsStale s (durableAppends fmt nodeID shardID s.files b result stage written)) :
    Sound fmt
      { s with files := durableAppends fmt nodeID shardID s.files b result stage written }
      (l.attempt fmt nodeID shardID s.files b result stage written) where
  holds := (h.crash hchain).holds
  consistent := (h.crash hchain).consistent
  coherent := by
    rcases h.coherent with hlt | ⟨indexed, hcov⟩
    · exact .inl (hstale.resolve_left (not_le.2 hlt))
    · exact .inr ⟨indexed, hcov.attempt hchain h.holds⟩

/-! ## Rollbacks -/

lemma rollbackFile_getD {file file' : Option Bytes} {size : Option Nat} {data tail : Bytes}
    (h : rollbackFile file size = some file') (hfile : file.getD [] = data ++ tail)
    (hle : size.getD 0 ≤ data.length) : file'.getD [] = data.take (size.getD 0) := by
  rw [← take_append_of_le_length hle, ← hfile]
  cases size with
  | none =>
    cases h
    simp
  | some n =>
    obtain ⟨_, rfl, rfl⟩ := Option.map_eq_some_iff.1 h
    have hzero : n - (data ++ tail).length = 0 := by
      rw [length_append]
      exact Nat.sub_eq_zero_of_le (hle.trans (Nat.le_add_right _ _))
    simp [truncate, ← hfile] at hzero ⊢
    omega

variable {files' : Files} {P : Store → Ledger β → Step β → Prop}
  {p : Store × Ledger β} {steps : List (Step β)}

lemma rollback_eq_some {files : Files} (h : rollback files checkpoint = some files') :
    files'.legacy = files.legacy ∧
      rollbackFile files.txIndex checkpoint.txIndex = some files'.txIndex ∧
      rollbackFile files.blocks checkpoint.blocks = some files'.blocks ∧
      rollbackFile files.markers checkpoint.markers = some files'.markers := by
  simp only [rollback, Option.bind_eq_bind, Option.bind_eq_some_iff, Option.pure_def,
    Option.some.injEq] at h
  obtain ⟨receipts, -, txIndex, htx, blocks, hblks, markers, hmrks, rfl⟩ := h
  exact ⟨rfl, htx, hblks, hmrks⟩

lemma map_marker_rollback (checkpoint : Checkpoint) :
    (l.rollback fmt checkpoint).committed.map Committed.marker =
      (fmt.markers.cut (l.committed.map Committed.marker) (checkpoint.markers.getD 0)).1 := by
  have hinit := cut_prefix (c := fmt.markers.toLineFormat)
    (l.committed.map Committed.marker) (checkpoint.markers.getD 0)
  rw [Ledger.rollback, map_take]
  exact (prefix_iff_eq_take.1 hinit).symm

lemma Sound.rollback (h : Sound fmt s l) (hcut : Truncates fmt s.files l checkpoint) :
    Sound fmt { s with files := (Storage.rollback s.files checkpoint).getD s.files }
      (l.rollback fmt checkpoint) := by
  obtain ⟨files', hfiles'⟩ := Option.isSome_iff_exists.1 hcut.succeeds
  obtain ⟨hlegacy, -, hblks, hmrks⟩ := rollback_eq_some hfiles'
  have hblks' := rollbackFile_getD hblks h.holds.blocks hcut.blocks
  have hmrks' := rollbackFile_getD hmrks h.holds.markers hcut.markers
  have hrows : (l.rollback fmt checkpoint).rows <+: l.rows := cut_prefix _ _
  have hcomm : (l.rollback fmt checkpoint).committed <+: l.committed := take_prefix _ _
  rw [hfiles', Option.getD_some]
  refine ⟨⟨hlegacy.trans h.holds.legacy, ?_, ?_, newline_not_mem_cut _ _⟩, ⟨?_, ?_, ?_, ?_⟩, ?_⟩
  · rw [hblks', file_take]
    rfl
  · rw [hmrks', file_take, map_marker_rollback]
    rfl
  · exact fun stored hstor => h.consistent.readable stored (hrows.subset hstor)
  · intro c hc
    obtain ⟨pre, post, hplaced⟩ := h.consistent.placed c (hcomm.subset hc)
    -- the row of a marker that is kept is kept
    obtain ⟨post', hpost'⟩ : pre ++ [c.stored] <+: (l.rollback fmt checkpoint).rows := by
      apply prefix_cut ⟨post, by simp [hplaced.rows_eq]⟩
      have hle := hcut.kept c hc
      rw [hplaced.sourceSize_eq] at hle
      exact_mod_cast hle
    refine ⟨pre, post', { hplaced with rows_eq := by simp [← hpost'], above := ?_ }⟩
    intro stored hstor
    obtain ⟨rest, hrest⟩ := hrows
    have hpost : post = post' ++ rest := by
      have heq := hplaced.rows_eq.symm.trans hrest.symm
      rw [← hpost'] at heq
      simp only [append_assoc, singleton_append] at heq
      exact (List.cons.inj (append_cancel_left heq)).2
    exact hplaced.above stored (hpost ▸ mem_append_left _ hstor)
  · exact h.consistent.increasing.sublist hcomm.sublist
  · exact h.consistent.distinct.sublist hrows.sublist
  · -- the index is beyond the new end, or covers rows that are kept
    rcases Nat.lt_or_ge (files'.blocks.getD []).length s.index.indexedSize with hlt | hge
    · exact .inl hlt
    right
    rw [hblks', length_take, Nat.min_eq_left hcut.blocks] at hge
    rcases h.coherent with hstale | ⟨indexed, hcov⟩
    · have hle := hcut.blocks
      rw [h.holds.blocks, length_append] at hstale
      omega
    · refine ⟨indexed, prefix_cut hcov.initial (hcov.size ▸ hge), hcov.size, hcov.spans, ?_⟩
      exact fun c hc => hcov.finds c (hcomm.subset hc)

/-! ## Reads -/

variable {fromHeight toHeight : Nat}

/-- The blocks of a range of heights. -/
def inRange (fromHeight toHeight : Nat) (items : List (DurableBlock β)) : List (DurableBlock β) :=
  items.filter fun b => fromHeight ≤ b.height ∧ b.height ≤ toHeight

lemma Sound.readCommittedRange (h : Sound fmt s l) (hwhole : l.blockTail = [])
    (hfile : s.files.blocks.isSome = true) (hpos : 0 < fromHeight) (hle : fromHeight ≤ toHeight) :
    ∃ idx, Storage.readCommittedRange fmt s fromHeight toHeight =
        ({ s with index := idx },
          .ok (inRange fromHeight toHeight (l.committed.map Committed.block))) ∧
      Covers fmt idx l.rows l.rows l.committed := by
  obtain ⟨data, hdata⟩ := Option.isSome_iff_exists.1 hfile
  have hblks := h.holds.blocks
  rw [hdata, hwhole, Option.getD_some, append_nil] at hblks
  have hcoherent : (fmt.blocks.file l.rows).length < s.index.indexedSize ∨
      ∃ indexed, Covers fmt s.index l.rows indexed l.committed := by
    have hcoherent := h.coherent
    rw [Coherent, hdata, hblks] at hcoherent
    exact hcoherent
  obtain ⟨idx, hrefr, hcov⟩ := refresh_covers h.consistent h.holds hcoherent
  have hitems := readHeights_eq h.consistent hcov fromHeight (toHeight + 1 - fromHeight)
  have hval : ¬ (fromHeight = 0 ∨ toHeight < fromHeight) := by omega
  have hend : fromHeight + (toHeight + 1 - fromHeight) = toHeight + 1 := by omega
  refine ⟨idx, ?_, hcov⟩
  simp only [Storage.readCommittedRange, if_neg hval, h.holds.legacy, hdata, Option.none_or, hblks,
    Option.isSome_none, Bool.false_eq_true, if_false, hrefr,
    h.holds.committedMarkerHashes h.consistent, hitems, hend, inRange, Nat.lt_succ_iff]

lemma Sound.step {step : Step β} (h : Sound fmt s l)
    (hstep : Admissible fmt nodeID shardID s l step) :
    Sound fmt (s.step fmt nodeID shardID step) (l.step fmt nodeID shardID s.files step) := by
  cases step with
  | commit b result =>
    simp only [Store.step, Ledger.step, durableCommit_eq]
    refine h.attempt hstep.1 ?_
    rw [← durableCommit_eq]
    exact hstep.2
  | fail b result stage written => exact h.attempt hstep.1 hstep.2
  | crash b result stage written => exact h.crash hstep
  | rollback checkpoint => exact h.rollback hstep
  | read fromHeight toHeight =>
    obtain ⟨hwhole, hfile, hpos, hle⟩ := hstep
    obtain ⟨idx, hread, hcov⟩ := h.readCommittedRange hwhole hfile hpos hle
    simp only [Store.step, Ledger.step, hread]
    exact ⟨h.holds, h.consistent, .inr ⟨l.rows, hcov⟩⟩

/-! ## Range reads -/

/-- A range read returns the blocks of a full read whose height is in the range, in their order. -/
def RefinesScan (fmt : StoreFormat β) (s : Store) (fromHeight toHeight : Nat) : Prop :=
  ∃ all, readCommitted fmt s.files = .ok all ∧
    (readCommittedRange fmt s fromHeight toHeight).2 = .ok (inRange fromHeight toHeight all)

theorem range_refines_scan (fmt : StoreFormat β) (nodeID shardID : String) (steps : List (Step β))
    (h : Run.Along (stepBoth fmt nodeID shardID) (fun p => Admissible fmt nodeID shardID p.1 p.2)
      ({}, {}) steps) :
    ∀ i fromHeight toHeight, steps[i]? = some (.read fromHeight toHeight) →
      RefinesScan fmt (before fmt nodeID shardID steps i).1 fromHeight toHeight := by
  have hadm := Run.forall_inputs_iff.2 h
  intro i fromHeight toHeight hread
  have hsound :
      Sound fmt (before fmt nodeID shardID steps i).1 (before fmt nodeID shardID steps i).2 := by
    refine Run.stretch_induction (P := fun p : Store × Ledger β => Sound fmt p.1 p.2)
      (Nat.zero_le i) (sound_empty fmt) ?_
    intro k step _ _ hstep hk
    exact hk.step (hadm k step hstep)
  obtain ⟨hwhole, hfile, hpos, hle⟩ := hadm i _ hread
  obtain ⟨idx, hrange, -⟩ := hsound.readCommittedRange hwhole hfile hpos hle
  exact ⟨_, readCommitted_eq hsound.holds hsound.consistent hwhole hfile, congrArg Prod.snd hrange⟩

/-! ## Transactions -/

/-- The transaction index holds the transactions of the committed blocks, and of a committed block
no others. -/
structure TxSound (fmt : StoreFormat β) (files : Files) (l : Ledger β) : Prop where
  file : files.txIndex.getD [] = fmt.txIndex.file l.txs ++ l.txTail
  short : ∀ record ∈ l.txs, (fmt.txIndex.encode record).length < scanLimit
  present : TxsPresent l
  only : ∀ record ∈ l.txs, ∀ c ∈ l.committed, record.blockHash = c.stored.blockHash →
    ∃ receipt ∈ c.result.receipts, receipt.txID = record.txID

lemma attempt_txs (nodeID shardID : String) (hchain : Chained fmt l b)
    (hfile : files.txIndex.getD [] = fmt.txIndex.file l.txs) (htail : l.txTail = [])
    (result : Execution) (stage : Stage) (written : Nat) {l' : Ledger β}
    (hl' : l.attempt fmt nodeID shardID files b result stage written = l') :
    ∃ txs, l'.txs = l.txs ++ txs ∧ txs <+: indexRecords result ∧
      (l'.committed = l.committed ∨ txs = indexRecords result) ∧
      (durableAppends fmt nodeID shardID files b result stage written).txIndex.getD [] =
        fmt.txIndex.file l'.txs ++ l'.txTail := by
  subst hl'
  obtain ⟨stored, hstor⟩ := hchain.stores
  cases stage with
  | receipts =>
    refine ⟨[], by simp [attempt], nil_prefix, .inl rfl, ?_⟩
    simp only [durableAppends, attempt, hfile, htail, append_nil]
  | txIndex =>
    have htake := file_take (c := fmt.txIndex.toLineFormat) (indexRecords result) written
    refine ⟨(fmt.txIndex.cut (indexRecords result) written).1, rfl, cut_prefix _ _, .inl rfl, ?_⟩
    simp only [durableAppends, attempt, appendFile, Option.getD_some, hfile, htake,
      file_append, append_assoc]
  | blocks | markers =>
    refine ⟨indexRecords result, by simp only [attempt, hstor], prefix_refl _, .inr rfl, ?_⟩
    simp only [durableAppends, attempt, hstor, appendFile, Option.getD_some, hfile, htail,
      file_append, append_nil]

lemma Chained.hash_ne_committed (h : Chained fmt l b) (hl : Consistent fmt l) {c : Committed β}
    (hc : c ∈ l.committed) : b.blockHash ≠ c.stored.blockHash :=
  (h.fresh _ (hl.mem_rows hc)).symm

lemma TxSound.attempt (h : TxSound fmt files l) (hl : Consistent fmt l)
    (hfiles : Holds fmt files l) (hchain : Chained fmt l b) (hrcpt : Receipted fmt l b result) :
    TxSound fmt (durableAppends fmt nodeID shardID files b result stage written)
      (l.attempt fmt nodeID shardID files b result stage written) := by
  have hfile := h.file
  rw [hrcpt.whole, append_nil] at hfile
  rcases attempt_txs nodeID shardID hchain hfile hrcpt.whole result stage written rfl with
    ⟨txs, htxs, hsub, hcomm, hafter⟩
  rcases attempt_cases nodeID shardID hchain hfiles result stage written rfl with
    ⟨stored, rows, marked, hstor, -, hmarked, hcases, -⟩
  have hhash : stored.blockHash = b.blockHash := (hchain.readable hstor).2.2.2
  -- the new committed blocks are at most the one of the attempt
  have hnew : ∀ c ∈ marked, c.stored.blockHash = b.blockHash ∧ c.result = result ∧
      txs = indexRecords result := by
    intro c hc
    have hwhole : txs = indexRecords result := by
      rcases hcomm with hsame | hwhole
      · rw [hsame] at hmarked
        rw [self_eq_append_right.1 hmarked] at hc
        cases hc
      · exact hwhole
    rcases hcases with ⟨-, rfl⟩ | ⟨-, rfl⟩ | ⟨-, rfl⟩
    · cases hc
    · cases hc
    · rw [mem_singleton.1 hc]
      exact ⟨hhash, rfl, hwhole⟩
  have hrecord : ∀ record ∈ txs, record.blockHash = b.blockHash ∧
      ∃ receipt ∈ result.receipts, receipt.txID = record.txID := by
    intro record hmem
    obtain ⟨receipt, hreceipt, rfl⟩ := mem_map.1 (hsub.subset hmem)
    exact ⟨hrcpt.hash receipt hreceipt, receipt, hreceipt, rfl⟩
  refine ⟨hafter, ?_, ?_, ?_⟩
  · intro record hmem
    rw [htxs] at hmem
    rcases mem_append.1 hmem with hold | hnewtx
    · exact h.short record hold
    · exact hrcpt.short record (hsub.subset hnewtx)
  · intro c hc receipt hreceipt
    rw [hmarked] at hc
    rw [htxs]
    rcases mem_append.1 hc with hold | hmark
    · obtain ⟨record, hmem, heq⟩ := h.present c hold receipt hreceipt
      exact ⟨record, mem_append_left _ hmem, heq⟩
    · obtain ⟨hchash, rfl, rfl⟩ := hnew c hmark
      refine ⟨_, mem_append_right _ (mem_map.2 ⟨receipt, hreceipt, rfl⟩), rfl, ?_⟩
      rw [hchash]
      exact hrcpt.hash receipt hreceipt
  · intro record hmem c hc heq
    rw [htxs] at hmem
    rw [hmarked] at hc
    rcases mem_append.1 hc with hold | hmark
    · rcases mem_append.1 hmem with hrec | hrec
      · exact h.only record hrec c hold heq
      · -- a committed block is not attempted again
        exact absurd ((hrecord record hrec).1.symm.trans heq) (hchain.hash_ne_committed hl hold)
    · obtain ⟨hchash, rfl, -⟩ := hnew c hmark
      rcases mem_append.1 hmem with hrec | hrec
      · exact hrcpt.same record hrec (heq.trans hchash)
      · exact (hrecord record hrec).2

lemma TxSound.rollback (h : TxSound fmt files l)
    (hle : checkpoint.txIndex.getD 0 ≤ (fmt.txIndex.file l.txs).length)
    (hpres : TxsPresent (l.rollback fmt checkpoint))
    (hfiles' : Storage.rollback files checkpoint = some files') :
    TxSound fmt files' (l.rollback fmt checkpoint) := by
  obtain ⟨-, htx, -, -⟩ := rollback_eq_some hfiles'
  have htxs : (l.rollback fmt checkpoint).txs <+: l.txs := cut_prefix _ _
  have hcomm : (l.rollback fmt checkpoint).committed <+: l.committed := take_prefix _ _
  refine ⟨?_, fun record hmem => h.short record (htxs.subset hmem), hpres, ?_⟩
  · rw [rollbackFile_getD htx h.file hle, file_take]
    rfl
  · exact fun record hmem c hc => h.only record (htxs.subset hmem) c (hcomm.subset hc)

lemma TxSound.step {step : Step β} (htx : TxSound fmt s.files l) (h : Sound fmt s l)
    (hstep : Admissible fmt nodeID shardID s l step) (hidx : Indexed fmt l step) :
    TxSound fmt (s.step fmt nodeID shardID step).files
      (l.step fmt nodeID shardID s.files step) := by
  cases step with
  | commit b result =>
    simp only [Store.step, Ledger.step, durableCommit_eq]
    exact htx.attempt h.consistent h.holds hstep.1 hidx
  | fail b result stage written => exact htx.attempt h.consistent h.holds hstep.1 hidx
  | crash b result stage written => exact htx.attempt h.consistent h.holds hstep hidx
  | rollback checkpoint =>
    obtain ⟨files', hfiles'⟩ := Option.isSome_iff_exists.1 hstep.succeeds
    simp only [Store.step, Ledger.step, hfiles', Option.getD_some]
    exact htx.rollback hidx.1 hidx.2 hfiles'
  | read fromHeight toHeight =>
    obtain ⟨hwhole, hfile, hpos, hle⟩ := hstep
    obtain ⟨idx, hread, -⟩ := h.readCommittedRange hwhole hfile hpos hle
    simp only [Store.step, Ledger.step, hread]
    exact htx

lemma TxSound.hasTransaction (htx : TxSound fmt s.files l) (h : Sound fmt s l)
    (hwhole : l.txTail = []) (txID : String) :
    ∃ found, Storage.hasTransaction fmt s.files txID = .ok found ∧
      (found = true ↔ ∃ c ∈ l.committed, ∃ receipt ∈ c.result.receipts, receipt.txID = txID) := by
  have hfile := htx.file
  rw [hwhole, append_nil] at hfile
  refine ⟨_, hasTransaction_eq h.holds h.consistent hfile htx.short txID, ?_⟩
  rw [any_eq_true]
  simp only [decide_eq_true_eq, mem_hashes]
  constructor
  · rintro ⟨record, hmem, rfl, c, hc, heq⟩
    obtain ⟨receipt, hreceipt, htxID⟩ :=
      htx.only record hmem c hc (heq.symm.trans (h.consistent.hash_eq hc))
    exact ⟨c, hc, receipt, hreceipt, htxID⟩
  · rintro ⟨c, hc, receipt, hreceipt, rfl⟩
    obtain ⟨record, hmem, htxID, heq⟩ := htx.present c hc receipt hreceipt
    exact ⟨record, hmem, htxID, c, hc, (h.consistent.hash_eq hc).trans heq.symm⟩

/-! ## Exact reads -/

def receiptCode : Code Receipt :=
  (Code.string.list.pair (Code.nat.pair (Code.bool.pair (Code.int.pair Code.string.list)))).imap
    (fun r => ([r.txID, r.blockHash, r.error, r.stateRootAfterTx], r.height, r.success,
      r.executionCost, r.stateKeys))
    (fun p => ⟨p.1.getD 0 "", p.1.getD 1 "", p.2.1, p.2.2.1, p.1.getD 2 "", p.2.2.2.1, p.2.2.2.2,
      p.1.getD 3 ""⟩)
    (fun _ => rfl)

def txIndexCode : Code TxIndexRecord :=
  (Code.string.list.pair (Code.nat.pair Code.bool)).imap
    (fun r => ([r.txID, r.blockHash, r.receiptRoot], r.height, r.receiptOK))
    (fun p => ⟨p.1.getD 0 "", p.1.getD 1 "", p.2.1, p.2.2, p.1.getD 2 ""⟩)
    (fun _ => rfl)

def byteCode : Code UInt8 :=
  Code.nat.imap UInt8.toNat UInt8.ofNat (by simp)

def evidenceCode : Code ProposalEvidence :=
  (Code.string.pair (Code.string.pair byteCode.list)).imap
    (fun e => (e.algorithmID, e.payloadDigest, e.payload)) (fun p => ⟨p.1, p.2.1, p.2.2⟩)
    (fun _ => rfl)

/-- Blocks without further fields. -/
def blockCode : Code (DurableBlock Unit) :=
  (Code.nat.pair (Code.string.pair (Code.bool.pair evidenceCode.list))).imap
    (fun b => (b.height, b.blockHash, b.stateCommit, b.evidence.toList))
    (fun p => ⟨p.1, p.2.1, p.2.2.1, p.2.2.2.head?, ()⟩)
    (fun b => by cases b with | mk _ _ _ evidence _ => cases evidence <;> rfl)

def wrapperCode : Code CompressedPayload :=
  (Code.string.list.pair Code.int).imap
    (fun w => ([w.codec, w.encoding, w.uncompressedSHA256, w.payloadGzipBase64],
      w.uncompressedBytes))
    (fun p => ⟨p.1.getD 0 "", p.1.getD 1 "", p.2, p.1.getD 2 "", p.1.getD 3 ""⟩)
    (fun _ => rfl)

def bitText (data : Bytes) : String :=
  String.ofList ((byteCode.list.put data).map fun bit => if bit then '1' else '0')

/-- Payloads are written as bits. -/
def plainCompression : Compression where
  valid _ := true
  encode w := (LineCodec.ofCode wrapperCode).encode w
  decode := (LineCodec.ofCode wrapperCode).decode
  decode_encode := (LineCodec.ofCode wrapperCode).decode_encode
  encode_ne_nil := (LineCodec.ofCode wrapperCode).encode_ne_nil
  marshal_encode w := by
    refine RawJson.marshal_of_plain rfl fun c hc => ?_
    rcases mem_ofCodeEncode wrapperCode hc with rfl | rfl | rfl <;> decide
  gzip := bitText
  gunzip text := (byteCode.list.take (text.toList.map fun c => c = '1')).map Prod.fst
  gunzip_gzip data := by
    have hbits : ((byteCode.list.put data).map fun bit => if bit then '1' else '0').map
        (fun c => decide (c = '1')) = byteCode.list.put data := by
      rw [map_map]
      refine (map_congr_left fun bit _ => ?_).trans (map_id _)
      cases bit <;> rfl
    have htake := byteCode.list.take_put data []
    rw [append_nil] at htake
    rw [bitText, String.toList_ofList, hbits, htake]
    rfl
  sha256 := bitText

def digitStore : StoreFormat Unit where
  receipts := LineCodec.ofCode receiptCode
  txIndex := LineCodec.ofCode txIndexCode
  blocks := (LineCodec.ofCode blockCode).toLineFormat
  markers := digitMarkers
  compression := plainCompression
  decode := (LineCodec.ofCode blockCode).decode
  decode_encode b _ := (LineCodec.ofCode blockCode).decode_encode b
  member line := ((LineCodec.ofCode blockCode).decode line).map fun _ => none
  member_encode b := by rw [(LineCodec.ofCode blockCode).decode_encode]; rfl
  header line := ((LineCodec.ofCode blockCode).decode line).map DurableBlock.height
  header_encode b := by rw [(LineCodec.ofCode blockCode).decode_encode]; rfl
  blank _ := false
  blank_encode _ := rfl

def plainBlock (height : Nat) (blockHash : String) : DurableBlock Unit :=
  { height := height, blockHash := blockHash, body := () }

/-- A block with evidence that is stored as it is. -/
def evidentBlock (height : Nat) (blockHash : String) : DurableBlock Unit :=
  { plainBlock height blockHash with evidence := some ⟨"p", "", [49]⟩ }

def plainResult (txID blockHash : String) : Execution :=
  ⟨[⟨txID, blockHash, 1, true, "", 0, [], ""⟩], "", ""⟩

/-! ## Torn appends, and rows that are there twice -/

/-- The second commit leaves its row and fails, is rolled back and made again. -/
def retried : List (Step Unit) :=
  [.commit (plainBlock 1 "a") (plainResult "t" "a"), .read 1 1,
    .fail (evidentBlock 2 "b") (plainResult "u" "b") .markers 0,
    .rollback (durableCommit digitStore "n" "s" {} (plainBlock 1 "a")
      (plainResult "t" "a")).1.checkpoint,
    .commit (evidentBlock 2 "b") (plainResult "u" "b"), .read 1 2]

theorem range_refines_scan_retried :
    RefinesScan digitStore (before digitStore "n" "s" retried 5).1 1 2 :=
  range_refines_scan digitStore "n" "s" retried (by decide +kernel) 5 1 2 rfl

/-- The row of the first attempt stays, and the marker of the second one is for both. -/
def recommitted : List (Step Unit) :=
  [.crash (plainBlock 1 "a") (plainResult "t" "a") .markers 0,
    .commit (plainBlock 1 "a") (plainResult "t" "a")]

def regrown : List (Step Unit) :=
  [.commit (plainBlock 1 "a") (plainResult "t" "a"), .read 1 1, .rollback {},
    .commit (plainBlock 1 "bb") (plainResult "u" "bb")]

lemma not_refinesScan (all : List (DurableBlock β)) (hall : readCommitted fmt s.files = .ok all)
    (h : (readCommittedRange fmt s fromHeight toHeight).2 ≠ .ok (inRange fromHeight toHeight all)) :
    ¬ RefinesScan fmt s fromHeight toHeight := by
  rintro ⟨all', hall', hrange⟩
  rw [hall] at hall'
  cases hall'
  exact h hrange

/-- The index is not refreshed when the file has grown back to its old size, and of a row that is
there twice a range read returns one. -/
theorem range_stale : ¬ RefinesScan digitStore (before digitStore "n" "s" regrown 4).1 1 1 ∧
    ¬ RefinesScan digitStore (before digitStore "n" "s" recommitted 2).1 1 1 :=
  ⟨not_refinesScan [{ plainBlock 1 "bb" with stateCommit := true }] (by decide +kernel)
      (by decide +kernel),
    not_refinesScan (replicate 2 { plainBlock 1 "a" with stateCommit := true }) (by decide +kernel)
      (by decide +kernel)⟩

end ChainLab.Storage
