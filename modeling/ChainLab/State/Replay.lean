import ChainLab.State.Wal

/-!
# What the replay of a log does

`Load` replays the records of all segments, skips those of blocks that the snapshot includes, that
are not committed or that it has applied already, and applies the others.  `ReplaysTo` is the effect
of a list of records, apart from the files they are in; `replaySegment_file` reads them from a file
whose last record may be torn, and `load_eq_ok` puts the parts of a successful `Load` together.
-/

namespace ChainLab.State

open List
open Journal
open Storage (CommitMarker committedBlockHashes committedBlockHashes_file scanLimit)

section

variable (sha : Sha) (fmt : Format) (nameSpace : String) (includedHeight : Nat)
    (committed : Finset String)

/-! ## Records -/

/-- A record as `PersistDelta` makes it. -/
structure WellFormed (record : WalRecord) : Prop where
  version : record.version = recordVersion
  nameSpace_eq : record.nameSpace = nameSpace
  checksum : record.checksum = walChecksum fmt record
  rootVersion : record.stateRootVersion = commitmentVersion

/-- The record takes the replay from `r` to `r'`. -/
def RecordStep (r : Replay) (record : WalRecord) (r' : Replay) : Prop :=
  ∀ generation line,
    replayRecord sha fmt nameSpace includedHeight committed generation line r record = .ok r'

/-- The records take the replay from `r` to `r'`. -/
def ReplaysTo : Replay → List WalRecord → Replay → Prop
  | r, [], r' => r' = r
  | r, record :: records, r' =>
    ∃ next, RecordStep sha fmt nameSpace includedHeight committed r record next ∧
      ReplaysTo next records r'

def Replay.next (r : Replay) (record : WalRecord) (values : Snapshot) : Replay :=
  ⟨values, record.deltaID :: r.applied, record.blockHeight, record.blockHash⟩

end

variable {sha : Sha} {fmt : Format} {nameSpace : String} {includedHeight : Nat}
  {committed : Finset String} {r r' : Replay} {record : WalRecord}

variable {db : DB} {disk : Disk} {records : List WalRecord} {m m' : Snapshot} {generation : Nat}
  {tail : Bytes}

lemma openWAL_eq (hpos : 0 < db.walGeneration) (hman : disk.manifest = none ∨
      disk.manifest = some (walManifest fmt db db.walGeneration)) :
    openWAL fmt db disk =
      (db, { disk with manifest := some (walManifest fmt db db.walGeneration) }) := by
  have hact : activeGeneration fmt db disk = db.walGeneration := by
    simp [activeGeneration, hpos.ne']
  unfold openWAL
  rw [hact]
  rcases hman with hnone | hsome
  · simp only [hnone]
  · simp only [hsome]
    rw [← hsome]

lemma walManifest_congr {db' : DB} (h : db.nameSpace = db'.nameSpace) (generation : Nat) :
    walManifest fmt db generation = walManifest fmt db' generation := by
  rw [walManifest, walManifest, h]

lemma deltaRecord_congr {db' : DB} (h : db.nameSpace = db'.nameSpace) (info : DeltaMetadata)
    (updates : List StateKV) :
    deltaRecord fmt db info updates = deltaRecord fmt db' info updates := by
  simp only [deltaRecord, h]

lemma wellFormed_deltaRecord (db : DB) (info : DeltaMetadata) (updates : List StateKV) :
    WellFormed fmt db.nameSpace (deltaRecord fmt db info updates) :=
  ⟨rfl, rfl, rfl, rfl⟩

section

variable (h : WellFormed fmt nameSpace record)

include h

lemma replayRecord_of_wellFormed (generation line : Nat) :
    replayRecord sha fmt nameSpace includedHeight committed generation line r record =
      if record.blockHeight ≤ includedHeight then .ok r
      else if record.blockHash ∉ committed then .ok r
      else if record.deltaID ∈ r.applied then .ok r
      else applyRecord sha nameSpace r record := by
  unfold replayRecord
  rw [if_neg (not_not.2 ⟨h.version, h.nameSpace_eq⟩), if_neg (not_not.2 h.checksum)]

lemma recordStep_skip (hskip : record.blockHeight ≤ includedHeight ∨ record.blockHash ∉ committed ∨
      record.deltaID ∈ r.applied) : RecordStep sha fmt nameSpace includedHeight committed r record
    r := by
  intro generation line
  rw [replayRecord_of_wellFormed h]
  split
  · rfl
  next hincluded =>
  split
  · rfl
  · next hcomm =>
    rw [if_pos ((hskip.resolve_left hincluded).resolve_left hcomm)]

lemma recordStep_iff : RecordStep sha fmt nameSpace includedHeight committed r record r' ↔
      if record.blockHeight ≤ includedHeight ∨ record.blockHash ∉ committed ∨
          record.deltaID ∈ r.applied then r' = r
      else applyRecord sha nameSpace r record = .ok r' := by
  by_cases hskip : record.blockHeight ≤ includedHeight ∨ record.blockHash ∉ committed ∨
      record.deltaID ∈ r.applied
  · have hstep : RecordStep sha fmt nameSpace includedHeight committed r record r :=
      recordStep_skip h hskip
    rw [if_pos hskip]
    constructor
    · intro h'
      exact Except.ok.inj ((h' 0 0).symm.trans (hstep 0 0))
    · rintro rfl
      exact hstep
  · have hnot := hskip
    rw [not_or, not_or] at hnot
    rw [if_neg hskip]
    unfold RecordStep
    simp only [replayRecord_of_wellFormed h, if_neg hnot.1, if_neg hnot.2.1, if_neg hnot.2.2,
      forall_const]

lemma recordStep_apply (hht : includedHeight < record.blockHeight)
    (hcomm : record.blockHash ∈ committed)
    (hnew : record.deltaID ∉ r.applied) (happly : applyRecord sha nameSpace r record = .ok r') :
    RecordStep sha fmt nameSpace includedHeight committed r record r' := by
  intro generation line
  rw [replayRecord_of_wellFormed h, if_neg hht.not_ge, if_neg (not_not.2 hcomm), if_neg hnew,
    happly]

end

lemma rootForVersion_commitment (values : Snapshot) :
    rootForVersion sha values commitmentVersion = some (snapshotRoot sha values) := by
  have hemp : ¬ (commitmentVersion = "" ∨ commitmentVersion = legacyCommitmentVersion) := by decide
  rw [rootForVersion, if_neg hemp, if_pos rfl]

/-- The record continues the chain, and its roots are those of the values. -/
structure Continues (sha : Sha) (nameSpace : String) (r : Replay) (record : WalRecord)
    (values : Snapshot) : Prop where
  height : r.lastHeight = 0 ∨ record.blockHeight = r.lastHeight + 1
  parent : r.lastHash = "" ∨ record.parentHash = r.lastHash
  before : record.stateRootBefore = "" ∨ record.stateRootBefore = snapshotRoot sha r.values
  apply : applyStateKVs sha nameSpace r.values record.stateUpdates = .ok values
  after : record.stateRootAfter = "" ∨ record.stateRootAfter = snapshotRoot sha values

lemma applyRecord_eq_ok (h : WellFormed fmt nameSpace record) :
    applyRecord sha nameSpace r record = .ok r' ↔
      ∃ values, Continues sha nameSpace r record values ∧ r' = r.next record values := by
  have hvers : ¬ commitmentVersion = "" := by decide
  have hnot : ∀ s t : String, ¬ (s ≠ "" ∧ t ≠ s) ↔ s = "" ∨ s = t := by
    intro s t
    rw [not_and_or, not_not, not_not]
    exact or_congr_right eq_comm
  unfold applyRecord
  simp only [h.rootVersion, if_neg hvers, rootForVersion_commitment]
  constructor
  · intro hok
    split at hok
    · cases hok
    next hht =>
    split at hok
    · cases hok
    next hpar =>
    split at hok
    · cases hok
    next hbef =>
    split at hok
    · cases hok
    next values happly =>
    split at hok
    · cases hok
    next hafter =>
    refine ⟨values, ⟨by omega, ?_, (hnot _ _).1 hbef, happly,
      (hnot _ _).1 hafter⟩, (Except.ok.inj hok).symm⟩
    rw [not_and_or, not_not, not_not] at hpar
    exact hpar
  · rintro ⟨values, hcont, rfl⟩
    have hht : ¬ (0 < r.lastHeight ∧ record.blockHeight ≠ r.lastHeight + 1) := by
      have := hcont.height
      omega
    have hpar : ¬ (r.lastHash ≠ "" ∧ record.parentHash ≠ r.lastHash) := by
      rw [not_and_or, not_not, not_not]
      exact hcont.parent
    rw [if_neg hht, if_neg hpar, if_neg ((hnot _ _).2 hcont.before)]
    simp only [hcont.apply, Option.getD_some, if_neg ((hnot _ _).2 hcont.after)]
    rfl

/-! ## Lists of records -/

lemma replaysTo_append {records' : List WalRecord} {r'' : Replay}
    (h : ReplaysTo sha fmt nameSpace includedHeight committed r records r')
    (h' : ReplaysTo sha fmt nameSpace includedHeight committed r' records' r'') :
    ReplaysTo sha fmt nameSpace includedHeight committed r (records ++ records') r'' := by
  induction records generalizing r with
  | nil =>
    have heq : r' = r := h
    rw [heq] at h'
    exact h'
  | cons record records ih =>
    obtain ⟨next, hstep, htail⟩ := h
    exact ⟨next, hstep, ih htail⟩

lemma replaysTo_skip (h : ∀ record ∈ records,
      RecordStep sha fmt nameSpace includedHeight committed r record r) :
    ReplaysTo sha fmt nameSpace includedHeight committed r records r := by
  induction records with
  | nil => rfl
  | cons record records ih =>
    exact ⟨r, h record mem_cons_self, ih fun x hx => h x (mem_cons_of_mem _ hx)⟩

/-! ## Maps with the same entries -/

def Same (m m' : Snapshot) : Prop := ∀ q, m.find q = m'.find q

lemma Same.get (h : Same m m') (q : String) : m.get q = m'.get q := by
  rw [GoMap.get, GoMap.get, h q]

lemma Same.put (h : Same m m') (key value : String) : Same (m.put key value)
    (m'.put key value) := by
  intro q
  rw [GoMap.find_put, GoMap.find_put, h q]

lemma Same.applyStateKV {n : Snapshot} {key : String} {item : StateKV} (h : Same m m')
    (happly : applyStateKV sha m key item = .ok n) :
    ∃ n', applyStateKV sha m' key item = .ok n' ∧ Same n n' := by
  unfold State.applyStateKV at happly ⊢
  simp only [h.get] at happly
  split at happly
  · next hnoop => exact ⟨m', if_pos hnoop, Except.ok.inj happly ▸ h⟩
  next hnoop =>
  split at happly
  · next hdelta =>
    exact ⟨_, (if_neg hnoop).trans (if_pos hdelta), Except.ok.inj happly ▸ h.put _ _⟩
  · next hdelta =>
    split at happly
    · cases happly
    next hcas =>
    exact ⟨_, (if_neg hnoop).trans ((if_neg hdelta).trans (if_neg hcas)),
      Except.ok.inj happly ▸ h.put _ _⟩

lemma Same.applyStateKVs {n : Snapshot} {updates : List StateKV} (h : Same m m')
    (happly : applyStateKVs sha nameSpace m updates = .ok n) :
    ∃ n', applyStateKVs sha nameSpace m' updates = .ok n' ∧ Same n n' := by
  induction updates generalizing m m' with
  | nil => exact ⟨m', rfl, Except.ok.inj happly ▸ h⟩
  | cons item updates ih =>
    simp only [State.applyStateKVs, foldlM_cons] at happly ⊢
    cases hitem : State.applyStateKV sha m (qualifiedKey nameSpace item.key) item with
    | error err =>
      rw [hitem] at happly
      cases happly
    | ok next =>
      rw [hitem] at happly
      obtain ⟨next', hitem', hnext⟩ := h.applyStateKV hitem
      rw [hitem']
      exact ih hnext happly

structure Replay.Same (r s : Replay) : Prop where
  values : State.Same r.values s.values
  applied : r.applied = s.applied
  height : r.lastHeight = s.lastHeight
  hash : r.lastHash = s.lastHash

lemma Replay.Same.recordStep {s : Replay} (h : r.Same s) (hwell : WellFormed fmt nameSpace record)
    (hstep : RecordStep sha fmt nameSpace includedHeight committed r record r') :
    ∃ s', RecordStep sha fmt nameSpace includedHeight committed s record s' ∧ r'.Same s' := by
  rw [recordStep_iff hwell, h.applied] at hstep
  by_cases hskip : record.blockHeight ≤ includedHeight ∨ record.blockHash ∉ committed ∨
      record.deltaID ∈ s.applied
  · rw [if_pos hskip] at hstep
    rw [hstep]
    exact ⟨s, recordStep_skip hwell hskip, h⟩
  · rw [if_neg hskip, applyRecord_eq_ok hwell] at hstep
    obtain ⟨values, hcont, rfl⟩ := hstep
    obtain ⟨values', happly, hvals⟩ := h.values.applyStateKVs hcont.apply
    have hbef := snapshotRoot_congr sha h.values
    have hafter := snapshotRoot_congr sha hvals
    refine ⟨s.next record values', ?_, hvals, ?_, rfl, rfl⟩
    · rw [recordStep_iff hwell, if_neg hskip, applyRecord_eq_ok hwell]
      exact ⟨values', ⟨h.height ▸ hcont.height, h.hash ▸ hcont.parent,
        hbef ▸ hcont.before, happly, hafter ▸ hcont.after⟩, rfl⟩
    · simp [Replay.next, h.applied]

lemma Replay.Same.replaysTo {s : Replay} (h : r.Same s)
    (hwell : ∀ record ∈ records, WellFormed fmt nameSpace record)
    (hrepl : ReplaysTo sha fmt nameSpace includedHeight committed r records r') :
    ∃ s', ReplaysTo sha fmt nameSpace includedHeight committed s records s' ∧ r'.Same s' := by
  induction records generalizing r s with
  | nil =>
    have heq : r' = r := hrepl
    rw [heq]
    exact ⟨s, rfl, h⟩
  | cons record records ih =>
    obtain ⟨next, hstep, htail⟩ := hrepl
    obtain ⟨next', hstep', hnext⟩ := h.recordStep (hwell record mem_cons_self) hstep
    rcases ih hnext (fun x hx => hwell x (mem_cons_of_mem _ hx)) htail with ⟨s', htail', hs'⟩
    exact ⟨s', ⟨next', hstep', htail'⟩, hs'⟩

/-! ## Files -/

lemma replayLines_encode (generation line : Nat) (records : List WalRecord) (rows : List Bytes)
    (h : ReplaysTo sha fmt nameSpace includedHeight committed r records r') :
    replayLines sha fmt nameSpace includedHeight committed generation line
        (records.map fmt.record.encode ++ rows) r =
      replayLines sha fmt nameSpace includedHeight committed generation (line + records.length)
        rows r' := by
  induction records generalizing r line with
  | nil =>
    have heq : r' = r := h
    rw [heq]
    rfl
  | cons record records ih =>
    obtain ⟨next, hstep, htail⟩ := h
    have hih := ih (line + 1) htail
    simp only [map_cons, cons_append, replayLines, fmt.record.decode_encode,
      hstep generation line, hih, length_cons]
    congr 1
    omega

/-- What a crash may leave after the last whole record: nothing, or a prefix of a record that the
replay would skip. -/
def TornTail (sha : Sha) (fmt : Format) (nameSpace : String) (includedHeight : Nat)
    (committed : Finset String) (r : Replay) (tail : Bytes) : Prop :=
  tail = [] ∨ ∃ record, tail <+: fmt.record.encode record ∧
    (fmt.record.encode record).length < scanLimit ∧
    RecordStep sha fmt nameSpace includedHeight committed r record r

lemma replayLines_torn {line : Nat} {record : WalRecord} (hinit : tail <+: fmt.record.encode record)
    (hskip : RecordStep sha fmt nameSpace includedHeight committed r record r) :
    replayLines sha fmt nameSpace includedHeight committed generation line [tail] r = .ok r := by
  by_cases hwhole : tail = fmt.record.encode record
  · simp only [replayLines, hwhole, fmt.record.decode_encode, hskip generation line]
  · simp [replayLines, fmt.record.decode_strict record tail hinit hwhole]

lemma replaySegment_file (generation : Nat)
    (hshort : ∀ record ∈ records, (fmt.record.encode record).length < scanLimit)
    (h : ReplaysTo sha fmt nameSpace includedHeight committed r records r')
    (htail : TornTail sha fmt nameSpace includedHeight committed r' tail) :
    replaySegment sha fmt nameSpace includedHeight committed r
      (generation, fmt.record.file records ++ tail) = .ok r' := by
  by_cases hemp : tail = []
  · have hscan := LineFormat.scan_file hshort
    have hlines := replayLines_encode generation 1 records [] h
    rw [append_nil] at hlines
    simp only [replaySegment, hemp, append_nil, hscan, hlines, replayLines]
    rfl
  · -- the scanner returns the torn record as a last line
    obtain ⟨record, hinit, hlen, hskip⟩ := htail.resolve_left hemp
    have hscan :=
      LineFormat.scan_file_append hshort hinit hemp (lt_of_le_of_lt hinit.length_le hlen)
    have hlines := replayLines_encode generation 1 records [tail] h
    simp only [replaySegment, hscan, hlines, replayLines_torn hinit hskip]
    rfl

lemma walSegments_eq (hlegacy : disk.legacy = none)
    (hsegs : ∀ g, g ≠ generation → disk.segments.find g = none) :
    walSegments disk = (disk.segments.find generation).toList.map fun data =>
      (generation, data) := by
  unfold walSegments
  rw [hlegacy, GoMap.sortedKeys_eq_of_subsingleton hsegs]
  cases hfind : disk.segments.find generation with
  | none => rfl
  | some data => simp [hfind]

lemma foldlM_replaySegment (hlegacy : disk.legacy = none)
    (hsegs : ∀ g, g ≠ generation → disk.segments.find g = none)
    (hlog : (disk.segments.find generation).getD [] = fmt.record.file records ++ tail)
    (hshort : ∀ record ∈ records, (fmt.record.encode record).length < scanLimit)
    (hrepl : ReplaysTo sha fmt nameSpace includedHeight committed r records r')
    (htail : TornTail sha fmt nameSpace includedHeight committed r' tail) :
    (walSegments disk).foldlM (replaySegment sha fmt nameSpace includedHeight committed) r =
      .ok r' := by
  rw [walSegments_eq hlegacy hsegs]
  cases hfind : disk.segments.find generation with
  | none =>
    -- no log yet
    rw [hfind] at hlog
    have hnil : records = [] := (LineFormat.file_eq_nil _).1 (append_eq_nil_iff.1 hlog.symm).1
    rw [hnil] at hrepl
    have heq : r' = r := hrepl
    rw [heq]
    rfl
  | some data =>
    rw [hfind, Option.getD_some] at hlog
    have hseg := replaySegment_file generation hshort hrepl htail
    simp only [Option.toList_some, map_cons, map_nil, foldlM_cons, foldlM_nil, hlog, hseg]
    rfl

/-! ## Loading -/

lemma committedBlockHashes_of_file {file : Option Bytes} {markers : List CommitMarker}
    (hfile : file.getD [] = fmt.markers.file markers)
    (hall : ∀ m ∈ markers, m.row.valid = true ∧ (fmt.markers.encode m).length < scanLimit) :
    committedBlockHashes fmt.markers file = .ok (markers.map CommitMarker.blockHash).toFinset := by
  cases file with
  | none =>
    rw [(LineFormat.file_eq_nil _).1 hfile.symm]
    rfl
  | some data =>
    rw [show data = _ from hfile]
    exact committedBlockHashes_file (fun m hm => (hall m hm).1) fun m hm => (hall m hm).2

lemma load_eq_ok {info : SnapshotMetadata} {manifest : WALManifest} {base : Snapshot}
    (hinfo : loadSnapshotMetadata fmt db disk = .ok info)
    (hman : loadWALManifest fmt db disk = .ok manifest)
    (hsnap : loadSnapshot sha fmt disk info = .ok base)
    (hmark : committedBlockHashes fmt.markers disk.markers = .ok committed)
    (hemp : committed = ∅ → r.values = base) (hreplay : committed ≠ ∅ → (walSegments disk).foldlM
      (replaySegment sha fmt db.nameSpace info.includedHeight committed)
      ⟨base, [], info.includedHeight, info.includedBlockHash⟩ = .ok r) :
    load sha fmt db disk = ({ db with
         values := r.values
         commitment := treeOf sha r.values
         walGeneration := loadedGeneration db disk info manifest }, none) := by
  have hwal : replayWAL sha fmt db.nameSpace disk base info = .ok r.values := by
    unfold replayWAL
    rw [hmark]
    by_cases hcomm : committed = ∅
    · simp only [hcomm, if_true, hemp hcomm]
    · simp only [if_neg hcomm, hreplay hcomm]
  simp only [load, hinfo, hman, hsnap, hwal]

end ChainLab.State
