import Mathlib.Data.Finset.Basic
import ChainLab.Data.Journal

/-!
# Commit markers

A block is committed once its marker is a line of `commit_markers.jsonl`.  Two packages read the
file: the state recovery with a scanner, `committedBlockHashes`, and the block store with a reader
of terminated lines, `committedMarkerHashes`.

`readers_agree_iff` says on which files they find the same blocks.
-/

namespace ChainLab.Storage

open List
open Journal

structure CommitMarker where
  version : String
  nodeID : String
  shardID : String
  height : Nat
  blockHash : String
  receiptRoot : String
  stateRoot : String
  committed : Bool
  blockOffset : Int
  blockLength : Int
  blockSourceSize : Int
deriving DecidableEq, Repr

structure MarkerRow where
  version : String
  blockHash : String
  committed : Bool
deriving DecidableEq, Repr

def markerVersion : String := "durable_commit_marker_v1"

def MarkerRow.valid (row : MarkerRow) : Bool :=
  row.version = markerVersion && row.blockHash ≠ "" && row.committed

def CommitMarker.row (m : CommitMarker) : MarkerRow :=
  ⟨m.version, m.blockHash, m.committed⟩

/-- JSON of markers.  The state recovery decodes three of the fields, so it accepts at least what
the block store accepts; white space at the end of a line makes no difference. -/
structure MarkerFormat extends LineCodec CommitMarker where
  row : Bytes → Option MarkerRow
  row_of_decode : ∀ line m, decode line = some m → row (dropCR line) = some m.row
  row_strict : ∀ m p, p <+: encode m → p ≠ encode m → row p = none

def scanLimit : Nat := 65536

inductive MarkerError where
  | decode (line : Nat)
  | invalid (line : Nat)
  | tooLong
deriving DecidableEq, Repr

/-! ## The readers -/

/-- The loop over the lines from the one of a number on: each is decoded and checked. -/
def collectHashes (read : Bytes → Option MarkerRow) :
    Nat → List Bytes → Finset String → Except MarkerError (Finset String)
  | _, [], hashes => .ok hashes
  | line, text :: texts, hashes =>
    match read text with
    | none => .error (.decode line)
    | some row =>
      if row.valid then collectHashes read (line + 1) texts (insert row.blockHash hashes)
      else .error (.invalid line)

section Readers

variable (fmt : MarkerFormat)

def committedBlockHashes : Option Bytes → Except MarkerError (Finset String)
  | none => .ok ∅
  | some data =>
    match collectHashes fmt.row 1 (scan scanLimit data).1 ∅ with
    | .error err => .error err
    | .ok hashes => if (scan scanLimit data).2 then .error .tooLong else .ok hashes

def MarkerFormat.markerRow (line : Bytes) : Option MarkerRow :=
  (fmt.decode line).map CommitMarker.row

/-- `BlockStore.committedMarkerHashes`: what follows the last newline is not a marker yet. -/
def committedMarkerHashes : Option Bytes → Except MarkerError (Finset String)
  | none => .ok ∅
  | some data => collectHashes fmt.markerRow 1 (split data).1 ∅

end Readers

/-! ## What they return -/

def Marks (read : Bytes → Option MarkerRow) (text : Bytes) (hash : String) : Prop :=
  ∃ row, read text = some row ∧ row.valid = true ∧ row.blockHash = hash

variable {read : Bytes → Option MarkerRow} {texts : List Bytes} {E : Type}
  {r : Except E (Finset String)} {hash : String} {line : Bytes}

lemma Marks.unique {hash' : String} (h : Marks read line hash) (h' : Marks read line hash') :
    hash = hash' := by
  obtain ⟨row, hrow, -, rfl⟩ := h
  obtain ⟨row', hrow', -, rfl⟩ := h'
  rw [hrow] at hrow'
  cases hrow'
  rfl

lemma collectHashes_eq_ok {line : Nat} {hashes hashes' : Finset String} :
    collectHashes read line texts hashes = .ok hashes' ↔
      (∀ text ∈ texts, ∃ hash, Marks read text hash) ∧
        ∀ hash, hash ∈ hashes' ↔ hash ∈ hashes ∨ ∃ text ∈ texts, Marks read text hash := by
  induction texts generalizing line hashes with
  | nil =>
    simp only [collectHashes, Except.ok.injEq, not_mem_nil, false_and, exists_false, or_false,
      false_implies, implies_true, true_and]
    exact ⟨fun h _ => h ▸ Iff.rfl, fun h => Finset.ext fun hash => (h hash).symm⟩
  | cons text texts ih =>
    unfold collectHashes
    cases hread : read text with
    | none =>
      have hnot : ¬ ∃ hash, Marks read text hash := by
        rintro ⟨hash, row, hrow, -⟩
        simp [hread] at hrow
      simp [hnot]
    | some row =>
      by_cases hval : row.valid = true
      · have hmarks : ∀ hash, Marks read text hash ↔ hash = row.blockHash := by
          intro hash
          constructor
          · rintro ⟨row', hrow, -, rfl⟩
            rw [hread] at hrow
            cases hrow
            rfl
          · rintro rfl
            exact ⟨row, hread, hval, rfl⟩
        simp only [hval, if_true, ih, forall_mem_cons, hmarks, exists_eq, true_and,
          Finset.mem_insert, exists_mem_cons_iff, or_assoc, or_left_comm]
      · have hnot : ¬ ∃ hash, Marks read text hash := by
          rintro ⟨hash, row', hrow, hval', -⟩
          rw [hread] at hrow
          cases hrow
          exact hval hval'
        simp [hval, hnot]

lemma exists_collectHashes (h : ∀ text ∈ texts, ∃ hash, Marks read text hash) (line : Nat)
    (hashes : Finset String) : ∃ hashes', collectHashes read line texts hashes = .ok hashes' := by
  induction texts generalizing line hashes with
  | nil => exact ⟨hashes, rfl⟩
  | cons text texts ih =>
    obtain ⟨hash, row, hrow, hval, -⟩ := h text mem_cons_self
    simp only [collectHashes, hrow, hval, if_true]
    exact ih (fun t ht => h t (mem_cons_of_mem _ ht)) (line + 1) _

variable {fmt : MarkerFormat} {data : Bytes} {hashes : Finset String}

lemma committedMarkerHashes_eq_ok : committedMarkerHashes fmt (some data) = .ok hashes ↔
      (∀ line ∈ (split data).1, ∃ hash, Marks fmt.markerRow line hash) ∧
        ∀ hash, hash ∈ hashes ↔ ∃ line ∈ (split data).1, Marks fmt.markerRow line hash := by
  rw [committedMarkerHashes, collectHashes_eq_ok]
  simp

/-- The line fits the scanner and is a valid marker of the block, a carriage return at its end
aside. -/
def Scanned (fmt : MarkerFormat) (line : Bytes) (hash : String) : Prop :=
  line.length < scanLimit ∧ Marks fmt.row (dropCR line) hash

lemma committedBlockHashes_eq_ok : committedBlockHashes fmt (some data) = .ok hashes ↔
      (∀ line ∈ rows data, ∃ hash, Scanned fmt line hash) ∧
        ∀ hash, hash ∈ hashes ↔ ∃ line ∈ rows data, Scanned fmt line hash := by
  by_cases hshort : ∀ line ∈ rows data, line.length < scanLimit
  · have hscan := scan_of_short hshort
    have heq : committedBlockHashes fmt (some data) =
        collectHashes fmt.row 1 ((rows data).map dropCR) ∅ := by
      simp only [committedBlockHashes, hscan]
      cases collectHashes fmt.row 1 ((rows data).map dropCR) ∅ <;> rfl
    have hscanned : ∀ line ∈ rows data, ∀ hash,
        (Marks fmt.row (dropCR line) hash ↔ Scanned fmt line hash) := fun line hline hash =>
      ⟨fun h => ⟨hshort line hline, h⟩, And.right⟩
    rw [heq, collectHashes_eq_ok]
    simp only [mem_map, forall_exists_index, and_imp, forall_apply_eq_imp_iff₂,
      exists_exists_and_eq_and, Finset.notMem_empty, false_or]
    refine and_congr ?_ (forall_congr' fun hash => iff_congr .rfl ?_)
    · exact forall₂_congr fun line hline => exists_congr fun hash => hscanned line hline hash
    · exact exists_congr fun line => and_congr_right fun hline => hscanned line hline hash
  · push Not at hshort
    obtain ⟨line, hline, hlong⟩ := hshort
    have htooLong : (scan scanLimit data).2 = true :=
      any_eq_true.2 ⟨line, hline, decide_eq_true hlong⟩
    constructor
    · intro h
      simp only [committedBlockHashes, htooLong, if_true] at h
      split at h
      · cases h
      · cases h
    · rintro ⟨hall, -⟩
      obtain ⟨hash, hlt, -⟩ := hall line hline
      exact absurd hlt hlong.not_gt

lemma committedBlockHashes_file {markers : List CommitMarker}
    (hval : ∀ m ∈ markers, m.row.valid = true)
    (hshort : ∀ m ∈ markers, (fmt.encode m).length < scanLimit) :
    committedBlockHashes fmt (some (fmt.file markers)) =
      .ok (markers.map CommitMarker.blockHash).toFinset := by
  have hscanned : ∀ m ∈ markers, Scanned fmt (fmt.encode m) m.blockHash := by
    intro m hm
    have hrow := fmt.row_of_decode _ m (fmt.decode_encode m)
    exact ⟨hshort m hm, m.row, hrow, hval m hm, rfl⟩
  rw [committedBlockHashes_eq_ok, LineFormat.rows_file]
  simp only [mem_map, forall_exists_index, and_imp, forall_apply_eq_imp_iff₂,
    exists_exists_and_eq_and, mem_toFinset]
  refine ⟨fun m hm => ⟨m.blockHash, hscanned m hm⟩, fun hash => ?_⟩
  constructor
  · rintro ⟨m, hm, rfl⟩
    exact ⟨m, hm, hscanned m hm⟩
  · rintro ⟨m, hm, h⟩
    exact ⟨m, hm, (hscanned m hm).2.unique h.2⟩

/-! ## Agreement -/

def Agree {E : Type} : Except E (Finset String) → Except E (Finset String) → Prop
  | .ok hashes, .ok hashes' => hashes = hashes'
  | .error _, .error _ => True
  | _, _ => False

lemma agree_ok : Agree r (.ok hashes) ↔ r = .ok hashes := by
  cases r with
  | error err => simp [Agree]
  | ok hashes' => simp [Agree]

lemma agree_error {err : E} : Agree r (.error err) ↔ ¬ ∃ hashes, r = .ok hashes := by
  cases r with
  | error err' => simp [Agree]
  | ok hashes => simp [Agree]

def StoreReads (fmt : MarkerFormat) (data : Bytes) : Prop :=
  ∀ line ∈ (split data).1, ∃ hash, Marks fmt.markerRow line hash

def StateReads (fmt : MarkerFormat) (data : Bytes) : Prop :=
  ∀ line ∈ rows data, ∃ hash, Scanned fmt line hash

lemma storeReads_iff : StoreReads fmt data ↔ ∃ hashes,
    committedMarkerHashes fmt (some data) = .ok hashes :=
  ⟨fun h => exists_collectHashes h 1 ∅, fun ⟨_, h⟩ => (committedMarkerHashes_eq_ok.1 h).1⟩

lemma stateReads_iff :
    StateReads fmt data ↔ ∃ hashes, committedBlockHashes fmt (some data) = .ok hashes := by
  constructor
  · intro h
    have hmarks : ∀ token ∈ (rows data).map dropCR, ∃ hash, Marks fmt.row token hash := by
      intro token htoken
      obtain ⟨line, hline, rfl⟩ := mem_map.1 htoken
      obtain ⟨hash, hscanned⟩ := h line hline
      exact ⟨hash, hscanned.2⟩
    obtain ⟨hashes, hok⟩ := exists_collectHashes hmarks 1 ∅
    have hshort : ∀ line ∈ rows data, line.length < scanLimit := by
      intro line hline
      obtain ⟨hash, hscanned⟩ := h line hline
      exact hscanned.1
    refine ⟨hashes, ?_⟩
    simp [committedBlockHashes, scan_of_short hshort, hok]
  · rintro ⟨hashes, h⟩
    exact (committedBlockHashes_eq_ok.1 h).1

lemma not_stateReads_iff : ¬ StateReads fmt data ↔
    ∃ line ∈ rows data, scanLimit ≤ line.length ∨ ∀ hash, ¬ Marks fmt.row (dropCR line) hash := by
  simp only [StateReads, Scanned, exists_and_left, not_forall, not_and_or, not_lt, not_exists,
    exists_prop]

lemma Marks.row (h : Marks fmt.markerRow line hash) : Marks fmt.row (dropCR line) hash := by
  obtain ⟨row, hrow, hval, rfl⟩ := h
  obtain ⟨m, hdec, rfl⟩ := Option.map_eq_some_iff.1 hrow
  exact ⟨m.row, fmt.row_of_decode line m hdec, hval, rfl⟩

lemma mem_rows :
    line ∈ rows data ↔ line ∈ (split data).1 ∨ line = (split data).2 ∧ (split data).2 ≠ [] := by
  unfold rows
  split
  · next h => simp [h]
  · next h => simp [h]

/-- The readers agree on a file that the block store accepts exactly if its lines fit the scanner
and it has no unterminated last line, unless that line is a marker of a block that is marked
already; and on a file that the block store rejects exactly if some line, which may be the
unterminated one, is too long for the scanner or has no valid row of three fields. -/
theorem readers_agree_iff (fmt : MarkerFormat) (data : Bytes) :
    Agree (committedBlockHashes fmt (some data)) (committedMarkerHashes fmt (some data)) ↔
      (StoreReads fmt data → (∀ line ∈ (split data).1, line.length < scanLimit) ∧
        ((split data).2 = [] ∨ ∃ hash, Scanned fmt (split data).2 hash ∧
          ∃ line ∈ (split data).1, Marks fmt.markerRow line hash)) ∧
      (¬ StoreReads fmt data → ∃ line ∈ rows data, scanLimit ≤ line.length ∨
        ∀ hash, ¬ Marks fmt.row (dropCR line) hash) := by
  by_cases hstore : StoreReads fmt data
  · obtain ⟨hashes, hok⟩ := storeReads_iff.1 hstore
    have hmem := (committedMarkerHashes_eq_ok.1 hok).2
    rw [hok, agree_ok, committedBlockHashes_eq_ok]
    simp only [hstore, true_implies, not_true, false_implies, and_true]
    constructor
    · rintro ⟨hall, hmem'⟩
      constructor
      · intro line hline
        obtain ⟨hash, hscanned⟩ := hall line (mem_rows.2 (.inl hline))
        exact hscanned.1
      · by_cases htail : (split data).2 = []
        · exact .inl htail
        have hrow : (split data).2 ∈ rows data := mem_rows.2 (.inr ⟨rfl, htail⟩)
        obtain ⟨hash, hscanned⟩ := hall _ hrow
        have hmarked : hash ∈ hashes := (hmem' hash).2 ⟨_, hrow, hscanned⟩
        exact .inr ⟨hash, hscanned, (hmem hash).1 hmarked⟩
    · rintro ⟨hshort, htail⟩
      -- the readers differ only on what follows the last newline
      have hlines : ∀ line ∈ (split data).1, ∀ hash,
          (Marks fmt.markerRow line hash ↔ Scanned fmt line hash) := by
        intro line hline hash
        refine ⟨fun h => ⟨hshort line hline, h.row⟩, fun h => ?_⟩
        obtain ⟨hash', hmarks⟩ := hstore line hline
        rwa [h.2.unique hmarks.row]
      constructor
      · intro line hline
        rcases mem_rows.1 hline with hline | ⟨rfl, hne⟩
        · obtain ⟨hash, hmarks⟩ := hstore line hline
          exact ⟨hash, (hlines line hline hash).1 hmarks⟩
        · obtain ⟨hash, hscanned, -⟩ := htail.resolve_left hne
          exact ⟨hash, hscanned⟩
      · intro hash
        rw [hmem hash]
        constructor
        · rintro ⟨line, hline, hmarks⟩
          exact ⟨line, mem_rows.2 (.inl hline), (hlines line hline hash).1 hmarks⟩
        · rintro ⟨line, hline, hscanned⟩
          rcases mem_rows.1 hline with hline | ⟨rfl, hne⟩
          · exact ⟨line, hline, (hlines line hline hash).2 hscanned⟩
          · obtain ⟨hash', hscanned', hmarked⟩ := htail.resolve_left hne
            rwa [hscanned.2.unique hscanned'.2]
  · cases hresult : committedMarkerHashes fmt (some data) with
    | ok hashes => exact absurd (storeReads_iff.2 ⟨hashes, hresult⟩) hstore
    | error err =>
      rw [agree_error, ← stateReads_iff, not_stateReads_iff]
      simp only [hstore, false_implies, not_false_eq_true, true_implies, true_and]

/-! ## A format of digits -/

def markerCode : Code CommitMarker :=
  (Code.string.list.pair (Code.nat.pair (Code.bool.pair Code.int.list))).imap
    (fun m => ([m.version, m.nodeID, m.shardID, m.blockHash, m.receiptRoot, m.stateRoot], m.height,
      m.committed, [m.blockOffset, m.blockLength, m.blockSourceSize]))
    (fun p =>
      { version := p.1.getD 0 "", nodeID := p.1.getD 1 "", shardID := p.1.getD 2 ""
        height := p.2.1, blockHash := p.1.getD 3 "", receiptRoot := p.1.getD 4 ""
        stateRoot := p.1.getD 5 "", committed := p.2.2.1, blockOffset := p.2.2.2.getD 0 0
        blockLength := p.2.2.2.getD 1 0, blockSourceSize := p.2.2.2.getD 2 0 })
    (fun _ => rfl)

def digitMarkers : MarkerFormat where
  toLineCodec := LineCodec.ofCode markerCode
  row line := ((LineCodec.ofCode markerCode).decode line).map CommitMarker.row
  row_of_decode line m h := by
    have hdrop : dropCR line = line := by
      unfold dropCR
      split
      · next hlast => simp [LineCodec.ofCode, ofCodeDecode, hlast, carriageReturn] at h
      · rfl
    simp [hdrop, h]
  row_strict m p hp hne := by
    rw [(LineCodec.ofCode markerCode).decode_strict m p hp hne]
    rfl

def markerOf (height : Nat) (blockHash : String) : CommitMarker :=
  ⟨markerVersion, "n", "s", height, blockHash, "", "", true, 0, 0, 0⟩

/-- A marker that lacks its newline counts for the state recovery only. -/
theorem readers_disagree :
    ¬ Agree (committedBlockHashes digitMarkers (some (digitMarkers.encode (markerOf 1 "b"))))
      (committedMarkerHashes digitMarkers (some (digitMarkers.encode (markerOf 1 "b")))) := by
  have hstate : committedBlockHashes digitMarkers (some (digitMarkers.encode (markerOf 1 "b"))) =
      .ok {"b"} := by decide +kernel
  have hstore : committedMarkerHashes digitMarkers (some (digitMarkers.encode (markerOf 1 "b"))) =
      .ok ∅ := by decide +kernel
  rw [hstate, hstore, agree_ok]
  decide

end ChainLab.Storage
