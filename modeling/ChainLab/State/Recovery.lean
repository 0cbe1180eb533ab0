import ChainLab.State.Replay

/-!
# Recovery after torn writes

Runs of a node over its state directory: `PersistDelta` calls, appends of commit markers, crashes
that leave a prefix of the last append, and restarts that `Load`.  A ledger keeps what a run has
made durable: the records that are whole and the blocks whose marker line is whole.  Recovery is
exact when a `Load` returns the values of the ledger.
-/

namespace ChainLab.State

open List
open Journal
open Storage (CommitMarker committedBlockHashes scanLimit)

/-! ## Runs -/

structure World where
  db : DB
  disk : Disk

inductive Step where
  | persist (info : DeltaMetadata) (updates : List StateKV)
  | mark (marker : CommitMarker)
  | crashPersist (info : DeltaMetadata) (updates : List StateKV) (written : Nat)
  | crashMark (marker : CommitMarker) (written : Nat)
  | load

structure Ledger where
  records : List WalRecord := []
  marked : List String := []

def Disk.appendMarkers (disk : Disk) (bytes : Bytes) : Disk :=
  { disk with markers := some (disk.markers.getD [] ++ bytes) }

section

variable (sha : Sha) (fmt : Format) (nameSpace : String)

/-- The record of a `PersistDelta` call. -/
def recordOf (info : DeltaMetadata) (updates : List StateKV) : WalRecord :=
  deltaRecord fmt (DB.new nameSpace) info updates

/-- A crash ends the process; the next one starts from a new database. -/
def World.step (w : World) : Step → World
  | .persist info updates =>
    let next := persistDelta fmt w.db w.disk info updates
    ⟨next.1, next.2⟩
  | .mark marker => ⟨w.db, w.disk.appendMarkers (fmt.markers.line marker)⟩
  | .crashPersist info updates written =>
    ⟨DB.new nameSpace, (persistBytes fmt w.db w.disk info updates written).2⟩
  | .crashMark marker written =>
    ⟨DB.new nameSpace, w.disk.appendMarkers ((fmt.markers.line marker).take written)⟩
  | .load => ⟨(load sha fmt (DB.new nameSpace) w.disk).1, w.disk⟩

def World.run (steps : List Step) : World :=
  steps.foldl (World.step sha fmt nameSpace) ⟨DB.new nameSpace, {}⟩

def Ledger.step (l : Ledger) : Step → Ledger
  | .persist info updates =>
    { l with records := l.records ++ [recordOf fmt nameSpace info updates] }
  | .mark marker => { l with marked := l.marked ++ [marker.blockHash] }
  | .crashPersist info updates written =>
    if (fmt.record.line (recordOf fmt nameSpace info updates)).length ≤ written then
      { l with records := l.records ++ [recordOf fmt nameSpace info updates] }
    else l
  | .crashMark marker written =>
    if (fmt.markers.line marker).length ≤ written then
      { l with marked := l.marked ++ [marker.blockHash] }
    else l
  | .load => l

def Ledger.run (steps : List Step) : Ledger :=
  steps.foldl (Ledger.step fmt nameSpace) {}

/-- The records of the marked blocks, applied in the order of the markers. -/
def Ledger.values (l : Ledger) : Option Snapshot :=
  l.marked.foldlM (fun values hash =>
    (l.records.find? fun record => record.blockHash = hash).bind fun record =>
      (applyStateKVs sha (DB.new nameSpace).nameSpace values record.stateUpdates).toOption) ∅

/-- A `Load` succeeds and returns the values of the ledger. -/
def Recovers (steps : List Step) : Prop :=
  ∃ values db, (Ledger.run fmt nameSpace steps).values sha nameSpace = some values ∧
    load sha fmt (DB.new nameSpace) (World.run sha fmt nameSpace steps).disk = (db, none) ∧
    db.values = values

/-! ## Orderly runs -/

/-- The record is the next one of the chain of marked blocks. -/
structure Fits (l : Ledger) (record : WalRecord) : Prop where
  height : record.blockHeight = l.marked.length + 1
  parent : ∀ hash, l.marked.getLast? = some hash → record.parentHash = hash
  roots : ∃ values next, l.values sha nameSpace = some values ∧
    applyStateKVs sha (DB.new nameSpace).nameSpace values record.stateUpdates = .ok next ∧
    (record.stateRootBefore = "" ∨ record.stateRootBefore = snapshotRoot sha values) ∧
    (record.stateRootAfter = "" ∨ record.stateRootAfter = snapshotRoot sha next)
  unmarked : record.blockHash ∉ l.marked
  same : ∀ other ∈ l.records,
    other.blockHash = record.blockHash ∨ other.deltaID = record.deltaID → other = record
  short : (fmt.record.encode record).length < scanLimit

/-- The marker is the one of the record that was persisted last. -/
structure Marks (pending : Option WalRecord) (marker : CommitMarker) : Prop where
  pending : ∃ record, pending = some record ∧ record.blockHash = marker.blockHash
  valid : marker.row.valid = true
  short : (fmt.markers.encode marker).length < scanLimit

/-- The steps of a live node whose crashes cut markers at a line boundary, and that does not append
after a torn record.  `torn` says that the log ends in a torn record, `pending` is the record that
was persisted last. -/
def Orderly : Ledger → (torn : Bool) → (pending : Option WalRecord) → List Step → Prop
  | _, _, _, [] => True
  | l, torn, _, .persist info updates :: steps =>
    torn = false ∧ Fits sha fmt nameSpace l (recordOf fmt nameSpace info updates) ∧
      Orderly (l.step fmt nameSpace (.persist info updates)) false
        (some (recordOf fmt nameSpace info updates)) steps
  | l, torn, pending, .mark marker :: steps =>
    Marks fmt pending marker ∧ Orderly (l.step fmt nameSpace (.mark marker)) torn none steps
  | l, torn, _, .crashPersist info updates written :: steps =>
    torn = false ∧ Fits sha fmt nameSpace l (recordOf fmt nameSpace info updates) ∧
      Orderly (l.step fmt nameSpace (.crashPersist info updates written)) (decide (0 < written ∧
          written < (fmt.record.line (recordOf fmt nameSpace info updates)).length)) none steps
  | l, torn, pending, .crashMark marker written :: steps =>
    Marks fmt pending marker ∧ (written = 0 ∨ (fmt.markers.line marker).length ≤ written) ∧
      Orderly (l.step fmt nameSpace (.crashMark marker written)) torn none steps
  | l, torn, _, .load :: steps => Orderly l torn none steps

end

variable {sha : Sha} {fmt : Format} {nameSpace : String} {l : Ledger} {record : WalRecord}

/-! ## The chain of marked blocks -/

def Replay.start : Replay := ⟨∅, [], 0, ""⟩

/-- The records up to the tip of the chain replay to the values of the ledger; those after it are of
blocks that are not marked. -/
structure Chain (sha : Sha) (fmt : Format) (nameSpace : String) (l : Ledger)
    (settled current : List WalRecord) (r : Replay) : Prop where
  records : l.records = settled ++ current
  wellFormed : ∀ record ∈ l.records, WellFormed fmt (DB.new nameSpace).nameSpace record
  short : ∀ record ∈ l.records, (fmt.record.encode record).length < scanLimit
  replays :
    ReplaysTo sha fmt (DB.new nameSpace).nameSpace 0 l.marked.toFinset Replay.start settled r
  values : l.values sha nameSpace = some r.values
  height : r.lastHeight = l.marked.length
  hash : r.lastHash = l.marked.getLast?.getD ""
  applied : ∀ deltaID ∈ r.applied, ∃ record ∈ settled, record.deltaID = deltaID
  settled_le : ∀ record ∈ settled, record.blockHeight ≤ l.marked.length
  current_height : ∀ record ∈ current, record.blockHeight = l.marked.length + 1
  current_unmarked : ∀ record ∈ current, record.blockHash ∉ l.marked

lemma chain_empty : Chain sha fmt nameSpace {} [] [] Replay.start where
  records := rfl
  wellFormed := by simp
  short := by simp
  replays := rfl
  values := rfl
  height := rfl
  hash := rfl
  applied := by simp [Replay.start]
  settled_le := by simp
  current_height := by simp
  current_unmarked := by simp

lemma Ledger.values_append {values : Snapshot} (h : l.values sha nameSpace = some values)
    (records : List WalRecord) :
    Ledger.values sha nameSpace { l with records := l.records ++ records } = some values := by
  unfold Ledger.values at h ⊢
  generalize l.marked = marked at h ⊢
  generalize (∅ : Snapshot) = start at h ⊢
  induction marked generalizing start with
  | nil => exact h
  | cons hash marked ih =>
    simp only [foldlM_cons, Option.bind_eq_bind] at h ⊢
    obtain ⟨next, hnext, htail⟩ := Option.bind_eq_some_iff.1 h
    obtain ⟨record, hfind, happly⟩ := Option.bind_eq_some_iff.1 hnext
    have hfind' : (l.records ++ records).find? (fun record => decide (record.blockHash = hash)) =
        some record := by
      simp [find?_append, hfind]
    simp only [hfind', Option.bind_some, happly]
    exact ih next htail

variable {current records settled : List WalRecord} {r : Replay}

lemma Chain.persist (h : Chain sha fmt nameSpace l settled current r)
    (hwell : WellFormed fmt (DB.new nameSpace).nameSpace record)
    (hfits : Fits sha fmt nameSpace l record) :
    Chain sha fmt nameSpace { l with records := l.records ++ [record] } settled
      (current ++ [record]) r where
  records := by simp [h.records]
  wellFormed := forall_mem_append.2 ⟨h.wellFormed, forall_mem_singleton.2 hwell⟩
  short := forall_mem_append.2 ⟨h.short, forall_mem_singleton.2 hfits.short⟩
  __ := h
  values := Ledger.values_append h.values [record]
  current_height := forall_mem_append.2 ⟨h.current_height, forall_mem_singleton.2 hfits.height⟩
  current_unmarked :=
    forall_mem_append.2 ⟨h.current_unmarked, forall_mem_singleton.2 hfits.unmarked⟩

lemma Fits.persist (h : Fits sha fmt nameSpace l record) :
    Fits sha fmt nameSpace { l with records := l.records ++ [record] } record where
  __ := h
  roots := by
    obtain ⟨values, next, hvals, happly, hbef, hafter⟩ := h.roots
    exact ⟨values, next, Ledger.values_append hvals [record], happly, hbef, hafter⟩
  same := by
    intro other hother heq
    rcases mem_append.1 hother with hother | hother
    · exact h.same other hother heq
    · exact mem_singleton.1 hother

variable {committed : Finset String} {includedHeight written : Nat} {r' : Replay}
  {marker : CommitMarker} {info : DeltaMetadata} {updates : List StateKV} {steps : List Step}

lemma replaysTo_congr {committed' : Finset String} (hcomm : ∀ record ∈ records,
      (record.blockHash ∈ committed ↔ record.blockHash ∈ committed'))
    (h : ReplaysTo sha fmt nameSpace includedHeight committed r records r') :
    ReplaysTo sha fmt nameSpace includedHeight committed' r records r' := by
  induction records generalizing r with
  | nil => exact h
  | cons record records ih =>
    obtain ⟨next, hstep, htail⟩ := h
    refine ⟨next, ?_, ih (fun x hx => hcomm x (mem_cons_of_mem _ hx)) htail⟩
    intro generation line
    have hrec := hcomm record mem_cons_self
    have hres := hstep generation line
    unfold replayRecord at hres ⊢
    simp only [hrec] at hres
    exact hres

/-- Records of which one block is committed: its first record is applied, and everything else is
skipped. -/
lemma replaysTo_current (hrecs : ∀ other ∈ records, WellFormed fmt nameSpace other ∧
      (other.blockHash ∉ committed ∨ other = record)) (hmem : record ∈ records)
    (hstep : RecordStep sha fmt nameSpace includedHeight committed r record r')
    (happ : record.deltaID ∈ r'.applied) :
    ReplaysTo sha fmt nameSpace includedHeight committed r records r' := by
  induction records with
  | nil => cases hmem
  | cons other records ih =>
    obtain ⟨hwell, hother⟩ := hrecs other mem_cons_self
    have htail : ∀ x ∈ records, WellFormed fmt nameSpace x ∧
        (x.blockHash ∉ committed ∨ x = record) := fun x hx =>
      hrecs x (mem_cons_of_mem _ hx)
    by_cases heq : other = record
    · refine ⟨r', heq ▸ hstep, replaysTo_skip ?_⟩
      intro x hx
      rcases htail x hx with ⟨hwellx, hx | rfl⟩
      · exact recordStep_skip hwellx (.inr (.inl hx))
      · exact recordStep_skip hwellx (.inr (.inr happ))
    · have hskip := hother.resolve_right heq
      refine ⟨r, recordStep_skip hwell (.inr (.inl hskip)), ?_⟩
      exact ih htail ((mem_cons.1 hmem).resolve_left fun h => heq h.symm)

lemma Chain.mark (h : Chain sha fmt nameSpace l settled current r) (hmem : record ∈ l.records)
    (hfits : Fits sha fmt nameSpace l record) :
    ∃ r', Chain sha fmt nameSpace { l with marked := l.marked ++ [record.blockHash] } l.records []
      r' := by
  obtain ⟨values, next, hvals, happly, hbef, hafter⟩ := hfits.roots
  have hr : values = r.values := Option.some.inj (hvals.symm.trans h.values)
  subst hr
  -- no record up to the tip is of the block or has its delta
  have hother : ∀ other ∈ settled,
      ¬ (other.blockHash = record.blockHash ∨ other.deltaID = record.deltaID) := by
    intro other hsett heq
    have hle := h.settled_le other hsett
    rw [hfits.same other (by simp [h.records, hsett]) heq, hfits.height] at hle
    exact Nat.not_succ_le_self _ hle
  have hcur : record ∈ current := by
    rcases mem_append.1 (h.records ▸ hmem) with hsett | hcur
    · exact absurd (.inl rfl) (hother record hsett)
    · exact hcur
  have hfinset : ∀ hash, hash ∈ (l.marked ++ [record.blockHash]).toFinset ↔
      hash ∈ l.marked ∨ hash = record.blockHash := by
    intro hash
    rw [mem_toFinset, mem_append, mem_singleton]
  have hsett : ReplaysTo sha fmt (DB.new nameSpace).nameSpace 0
      (l.marked ++ [record.blockHash]).toFinset Replay.start settled r := by
    apply replaysTo_congr _ h.replays
    intro other hmem'
    rw [hfinset, mem_toFinset]
    exact ⟨.inl, fun hor => hor.resolve_right fun heq => hother other hmem' (.inl heq)⟩
  have hstep : RecordStep sha fmt (DB.new nameSpace).nameSpace 0
      (l.marked ++ [record.blockHash]).toFinset r record (r.next record next) := by
    apply recordStep_apply (h.wellFormed record hmem)
    · rw [hfits.height]
      exact Nat.succ_pos _
    · exact (hfinset _).2 (.inr rfl)
    · intro happ
      obtain ⟨other, hmem', heq⟩ := h.applied _ happ
      exact hother other hmem' (.inr heq)
    · refine (applyRecord_eq_ok (h.wellFormed record hmem)).2 ⟨next,
        ⟨?_, ?_, hbef, happly, hafter⟩, rfl⟩
      · exact .inr (by rw [hfits.height, h.height])
      rw [h.hash]
      cases hlast : l.marked.getLast? with
      | none => exact .inl rfl
      | some hash => exact .inr (hfits.parent hash hlast)
  have hrest : ReplaysTo sha fmt (DB.new nameSpace).nameSpace 0
      (l.marked ++ [record.blockHash]).toFinset r current (r.next record next) := by
    apply replaysTo_current _ hcur hstep (mem_cons_self)
    intro other hmem'
    have hrecs : other ∈ l.records := by simp [h.records, hmem']
    refine ⟨h.wellFormed other hrecs, ?_⟩
    rw [hfinset]
    by_cases heq : other.blockHash = record.blockHash
    · exact .inr (hfits.same other hrecs (.inl heq))
    · exact .inl fun hor => hor.elim (h.current_unmarked other hmem') heq
  refine ⟨r.next record next, ?_⟩
  exact
    { h with
      records := (append_nil _).symm
      replays := h.records ▸ replaysTo_append hsett hrest
      values := by
        have hfind : (l.records.find? fun other => decide (other.blockHash = record.blockHash)) =
            some record := by
          cases hres : l.records.find? fun other => decide (other.blockHash = record.blockHash) with
          | none =>
            have hnone := find?_eq_none.1 hres record hmem
            simp at hnone
          | some other =>
            have heq : other.blockHash = record.blockHash := by
              simpa using find?_some hres
            rw [hfits.same other (mem_of_find?_eq_some hres) (.inl heq)]
        have hprev := h.values
        unfold Ledger.values at hprev ⊢
        rw [foldlM_append, hprev]
        simp [hfind, happly, Except.toOption, Replay.next]
      height := by simp [Replay.next, hfits.height]
      hash := by simp [Replay.next]
      applied := by
        intro deltaID hdelta
        rcases mem_cons.1 hdelta with rfl | hdelta
        · exact ⟨record, hmem, rfl⟩
        · obtain ⟨other, hother', heq⟩ := h.applied deltaID hdelta
          exact ⟨other, by simp [h.records, hother'], heq⟩
      settled_le := by
        intro other hmem'
        rw [length_append]
        rcases mem_append.1 (h.records ▸ hmem' : other ∈ settled ++ current) with hs | hc
        · exact (h.settled_le other hs).trans (Nat.le_succ _)
        · exact (h.current_height other hc).le
      current_height := by simp
      current_unmarked := by simp }

/-! ## The directory -/

/-- The directory holds the ledger; a torn record may follow its records. -/
structure Stored (fmt : Format) (nameSpace : String) (w : World) (l : Ledger) (torn : Bool) :
    Prop where
  nameSpace_eq : w.db.nameSpace = (DB.new nameSpace).nameSpace
  generation : w.db.walGeneration = 1
  snapshot : w.disk.snapshot = none
  metadata : w.disk.metadata = none
  legacy : w.disk.legacy = none
  manifest : w.disk.manifest = none ∨ w.disk.manifest = some (walManifest fmt (DB.new nameSpace) 1)
  segments : ∀ generation, generation ≠ 1 → w.disk.segments.find generation = none
  log : ∃ tail, (w.disk.segments.find 1).getD [] = fmt.record.file l.records ++ tail ∧
    (torn = false → tail = []) ∧
    (tail = [] ∨ ∃ record, tail <+: fmt.record.encode record ∧
      (fmt.record.encode record).length < scanLimit ∧
      WellFormed fmt (DB.new nameSpace).nameSpace record ∧ record.blockHash ∉ l.marked)
  markers : ∃ markers : List CommitMarker, w.disk.markers.getD [] = fmt.markers.file markers ∧
    markers.map CommitMarker.blockHash = l.marked ∧
    ∀ marker ∈ markers, marker.row.valid = true ∧ (fmt.markers.encode marker).length < scanLimit

lemma stored_empty : Stored fmt nameSpace ⟨DB.new nameSpace, {}⟩ {} false where
  nameSpace_eq := rfl
  generation := rfl
  snapshot := rfl
  metadata := rfl
  legacy := rfl
  manifest := .inl rfl
  segments _ _ := rfl
  log := ⟨[], rfl, fun _ => rfl, .inl rfl⟩
  markers := ⟨[], rfl, rfl, by simp⟩

variable {w : World} {torn : Bool}

lemma Stored.openWAL (h : Stored fmt nameSpace w l torn) : openWAL fmt w.db w.disk =
      (w.db, { w.disk with manifest := some (walManifest fmt (DB.new nameSpace) 1) }) := by
  have hman : walManifest fmt w.db w.db.walGeneration = walManifest fmt (DB.new nameSpace) 1 := by
    rw [h.generation, walManifest_congr h.nameSpace_eq]
  rw [openWAL_eq (h.generation.symm ▸ Nat.one_pos) (hman.symm ▸ h.manifest), hman]

lemma Stored.persistBytes (h : Stored fmt nameSpace w l false) (info : DeltaMetadata)
    (updates : List StateKV) (written : Nat) {tail : Bytes} {torn : Bool}
    (hwrote : fmt.record.file l.records ++
      (fmt.record.line (recordOf fmt nameSpace info updates)).take written =
        fmt.record.file records ++ tail) (htorn : torn = false → tail = [])
    (htail : tail = [] ∨ ∃ record, tail <+: fmt.record.encode record ∧
      (fmt.record.encode record).length < scanLimit ∧
      WellFormed fmt (DB.new nameSpace).nameSpace record ∧ record.blockHash ∉ l.marked) :
    Stored fmt nameSpace ⟨(State.persistBytes fmt w.db w.disk info updates written).1,
        (State.persistBytes fmt w.db w.disk info updates written).2⟩
      { l with records := records } torn := by
  obtain ⟨old, hold, hnone, -⟩ := h.log
  rw [hnone rfl, append_nil] at hold
  have hrec : deltaRecord fmt w.db info updates = recordOf fmt nameSpace info updates :=
    deltaRecord_congr h.nameSpace_eq info updates
  have hbytes : State.persistBytes fmt w.db w.disk info updates written =
      (w.db, Disk.append { w.disk with manifest := some (walManifest fmt (DB.new nameSpace) 1) } 1
        ((fmt.record.line (recordOf fmt nameSpace info updates)).take written)) := by
    simp only [State.persistBytes, h.openWAL, hrec, h.generation, walSegment]
    rfl
  rw [hbytes]
  exact
    { h with
      manifest := .inr rfl
      segments := by
        intro generation hne
        simp only [Disk.append, GoMap.find_put_ne _ _ hne]
        exact h.segments generation hne
      log := by
        refine ⟨tail, ?_, htorn, htail⟩
        simp only [Disk.append, GoMap.find_put_self, Option.getD_some, hold]
        exact hwrote }

lemma Stored.appendMarkers (h : Stored fmt nameSpace w l false) (hval : marker.row.valid = true)
    (hshort : (fmt.markers.encode marker).length < scanLimit) :
    Stored fmt nameSpace ⟨w.db, w.disk.appendMarkers (fmt.markers.line marker)⟩
      { l with marked := l.marked ++ [marker.blockHash] } false where
  __ := h
  log := by
    obtain ⟨tail, htail, hnone, -⟩ := h.log
    exact ⟨tail, htail, hnone, .inl (hnone rfl)⟩
  markers := by
    obtain ⟨markers, hfile, hmarked, hall⟩ := h.markers
    refine ⟨markers ++ [marker], ?_, by simp [hmarked], ?_⟩
    · simp only [Disk.appendMarkers, Option.getD_some, hfile, LineFormat.file_append,
        LineFormat.file_singleton]
    · exact forall_mem_append.2 ⟨hall, forall_mem_singleton.2 ⟨hval, hshort⟩⟩

lemma Stored.appendNothing (h : Stored fmt nameSpace w l torn) :
    Stored fmt nameSpace ⟨w.db, w.disk.appendMarkers []⟩ l torn :=
  { h with
    markers := by
      obtain ⟨markers, hfile, hrest⟩ := h.markers
      exact ⟨markers, by simpa [Disk.appendMarkers] using hfile, hrest⟩ }

/-! ## Loading -/

lemma Stored.load (h : Stored fmt nameSpace w l torn)
    (hchain : Chain sha fmt nameSpace l settled current r) :
    State.load sha fmt (DB.new nameSpace) w.disk =
      ({ DB.new nameSpace with values := r.values, commitment := treeOf sha r.values }, none) := by
  obtain ⟨markers, hfile, hmarked, hall⟩ := h.markers
  have hcomm : committedBlockHashes fmt.markers w.disk.markers = .ok l.marked.toFinset := by
    rw [← hmarked]
    exact committedBlockHashes_of_file hfile hall
  have hinfo : loadSnapshotMetadata fmt (DB.new nameSpace) w.disk = .ok {} := by
    simp [loadSnapshotMetadata, h.metadata]
  have hsnap : loadSnapshot sha fmt w.disk {} = .ok ∅ := by
    simp [loadSnapshot, h.snapshot]
  -- without a manifest the new database keeps its generation, and the manifest names the same one
  obtain ⟨manifest, hman, hgen⟩ : ∃ manifest,
      loadWALManifest fmt (DB.new nameSpace) w.disk = .ok manifest ∧
      loadedGeneration (DB.new nameSpace) w.disk {} manifest = 1 := by
    rcases h.manifest with hnone | hsome
    · refine ⟨{}, by simp [loadWALManifest, hnone], ?_⟩
      simp [loadedGeneration, h.snapshot, DB.new]
    · refine ⟨⟨manifestVersion, (DB.new nameSpace).nameSpace, 1⟩, ?_, by simp [loadedGeneration]⟩
      simp [loadWALManifest, hsome, walManifest, fmt.manifest.decode_encode]
  have hcur : ReplaysTo sha fmt (DB.new nameSpace).nameSpace 0 l.marked.toFinset r current r := by
    apply replaysTo_skip
    intro record hmem
    apply recordStep_skip (hchain.wellFormed record (by simp [hchain.records, hmem]))
    exact .inr (.inl fun hcomm =>
      hchain.current_unmarked record hmem (mem_toFinset.1 hcomm))
  have hreplay : (walSegments w.disk).foldlM
      (replaySegment sha fmt (DB.new nameSpace).nameSpace 0 l.marked.toFinset) Replay.start =
        .ok r := by
    have hall : ReplaysTo sha fmt (DB.new nameSpace).nameSpace 0 l.marked.toFinset Replay.start
        l.records r := hchain.records ▸ replaysTo_append hchain.replays hcur
    obtain ⟨tail, hlog, -, htail⟩ := h.log
    have htorn : TornTail sha fmt (DB.new nameSpace).nameSpace 0 l.marked.toFinset r tail := by
      rcases htail with hnil | ⟨record, hinit, hshort, hwell, hunmarked⟩
      · exact .inl hnil
      · refine .inr ⟨record, hinit, hshort, recordStep_skip hwell (.inr (.inl ?_))⟩
        exact fun hcomm => hunmarked (mem_toFinset.1 hcomm)
    exact foldlM_replaySegment h.legacy h.segments hlog hchain.short hall htorn
  have hload := load_eq_ok (r := r) hinfo hman hsnap hcomm (by
    intro hemp
    have hnil : l.marked = [] := toFinset_eq_empty_iff _ |>.1 hemp
    have hvals := hchain.values
    simp only [Ledger.values, hnil, foldlM_nil] at hvals
    exact (Option.some.inj hvals).symm) fun _ => hreplay
  rw [hload, hgen]
  rfl

/-! ## Orderly runs recover -/

/-- What holds before each step of an orderly run. -/
structure Live (sha : Sha) (fmt : Format) (nameSpace : String) (w : World) (l : Ledger)
    (torn : Bool) (pending : Option WalRecord) : Prop where
  stored : Stored fmt nameSpace w l torn
  chain : ∃ settled current r, Chain sha fmt nameSpace l settled current r
  pending_fits : ∀ record, pending = some record →
    record ∈ l.records ∧ Fits sha fmt nameSpace l record ∧ torn = false

variable {pending : Option WalRecord}

lemma Live.forget (h : Live sha fmt nameSpace w l torn pending) :
    Live sha fmt nameSpace w l torn none :=
  ⟨h.stored, h.chain, by simp⟩

lemma Live.persist (h : Live sha fmt nameSpace w l false pending)
    (hfits : Fits sha fmt nameSpace l (recordOf fmt nameSpace info updates))
    (hwrote : (fmt.record.line (recordOf fmt nameSpace info updates)).length ≤ written) :
    Live sha fmt nameSpace ⟨(persistBytes fmt w.db w.disk info updates written).1,
        (persistBytes fmt w.db w.disk info updates written).2⟩
      { l with records := l.records ++ [recordOf fmt nameSpace info updates] } false
      (some (recordOf fmt nameSpace info updates)) where
  stored := by
    have hwhole : fmt.record.file l.records ++
        (fmt.record.line (recordOf fmt nameSpace info updates)).take written =
        fmt.record.file (l.records ++ [recordOf fmt nameSpace info updates]) ++ [] := by
      rw [take_of_length_le hwrote, LineFormat.file_append, LineFormat.file_singleton, append_nil]
    exact h.stored.persistBytes info updates written hwhole (fun _ => rfl) (.inl rfl)
  chain := by
    obtain ⟨settled, current, r, hchain⟩ := h.chain
    exact ⟨settled, _, r, hchain.persist (wellFormed_deltaRecord _ info updates) hfits⟩
  pending_fits := by
    intro record hrec
    cases hrec
    exact ⟨by simp, hfits.persist, rfl⟩

lemma Live.cut (h : Live sha fmt nameSpace w l false pending)
    (hfits : Fits sha fmt nameSpace l (recordOf fmt nameSpace info updates))
    (hwrote : written < (fmt.record.line (recordOf fmt nameSpace info updates)).length) :
    Live sha fmt nameSpace ⟨(persistBytes fmt w.db w.disk info updates written).1,
        (persistBytes fmt w.db w.disk info updates written).2⟩ l (decide (0 < written)) none where
  stored := by
    have hinit : (fmt.record.line (recordOf fmt nameSpace info updates)).take written <+:
        fmt.record.encode (recordOf fmt nameSpace info updates) := by
      apply (LineFormat.cut_line (recordOf fmt nameSpace info updates) written).resolve_left
      intro heq
      have hlen := congrArg List.length heq
      rw [length_take, Nat.min_eq_left hwrote.le] at hlen
      exact hwrote.ne hlen
    apply h.stored.persistBytes info updates written rfl
    · intro hnone
      have hzero : written = 0 := Nat.eq_zero_of_not_pos (of_decide_eq_false hnone)
      rw [hzero, take_zero]
    · exact .inr ⟨_, hinit, hfits.short, wellFormed_deltaRecord _ info updates, hfits.unmarked⟩
  chain := h.chain
  pending_fits := by simp

section

variable (h : Live sha fmt nameSpace w l torn pending)

include h

lemma Live.mark (hmarks : Marks fmt pending marker) :
    Live sha fmt nameSpace ⟨w.db, w.disk.appendMarkers (fmt.markers.line marker)⟩
      { l with marked := l.marked ++ [marker.blockHash] } torn none where
  stored := by
    obtain ⟨record, hpend, -⟩ := hmarks.pending
    have htorn := (h.pending_fits record hpend).2.2
    have hstor := h.stored
    rw [htorn] at hstor ⊢
    exact hstor.appendMarkers hmarks.valid hmarks.short
  chain := by
    obtain ⟨record, hpend, hhash⟩ := hmarks.pending
    obtain ⟨hmem, hfits, -⟩ := h.pending_fits record hpend
    obtain ⟨settled, current, r, hchain⟩ := h.chain
    obtain ⟨r', hchain'⟩ := hchain.mark hmem hfits
    rw [hhash] at hchain'
    exact ⟨_, _, r', hchain'⟩
  pending_fits := by simp

lemma Live.process {db : DB}
    (hns : db.nameSpace = (DB.new nameSpace).nameSpace) (hgen : db.walGeneration = 1) :
    Live sha fmt nameSpace ⟨db, w.disk⟩ l torn pending :=
  ⟨{ h.stored with nameSpace_eq := hns, generation := hgen }, h.chain, h.pending_fits⟩

lemma Live.step {step : Step} (hsteps : Orderly sha fmt nameSpace l torn pending (step :: steps)) :
    ∃ torn' pending', Live sha fmt nameSpace (w.step sha fmt nameSpace step)
        (l.step fmt nameSpace step) torn' pending' ∧
      Orderly sha fmt nameSpace (l.step fmt nameSpace step) torn' pending' steps := by
  cases step with
  | persist info updates =>
    obtain ⟨rfl, hfits, hrest⟩ := hsteps
    have hrec : deltaRecord fmt (openWAL fmt w.db w.disk).1 info updates =
        recordOf fmt nameSpace info updates := by
      rw [h.stored.openWAL]
      exact deltaRecord_congr h.stored.nameSpace_eq info updates
    have hlive := h.persist hfits (le_refl _)
    refine ⟨false, _, ?_, hrest⟩
    simp only [World.step, Ledger.step, persistDelta, hrec]
    exact hlive.process hlive.stored.nameSpace_eq hlive.stored.generation
  | mark marker =>
    obtain ⟨hmarks, hrest⟩ := hsteps
    exact ⟨torn, none, h.mark hmarks, hrest⟩
  | crashPersist info updates written =>
    obtain ⟨rfl, hfits, hrest⟩ := hsteps
    refine ⟨_, none, ?_, hrest⟩
    simp only [World.step, Ledger.step]
    split
    · next hwhole =>
      have hfalse : decide (0 < written ∧
          written < (fmt.record.line (recordOf fmt nameSpace info updates)).length) = false :=
        decide_eq_false fun hcut => hcut.2.not_ge hwhole
      rw [hfalse]
      exact ((h.persist hfits hwhole).process rfl rfl).forget
    · next hcut =>
      have hlt := not_le.1 hcut
      simp only [hlt, and_true]
      exact (h.cut hfits hlt).process rfl rfl
  | crashMark marker written =>
    obtain ⟨hmarks, hwrote, hrest⟩ := hsteps
    refine ⟨torn, none, ?_, hrest⟩
    simp only [World.step, Ledger.step]
    split
    · next hwhole =>
      rw [take_of_length_le hwhole]
      exact (h.mark hmarks).process rfl rfl
    · next hcut =>
      have hzero : written = 0 := hwrote.resolve_right hcut
      rw [hzero]
      have hnothing : Live sha fmt nameSpace ⟨w.db, w.disk.appendMarkers []⟩ l torn pending :=
        ⟨h.stored.appendNothing, h.chain, h.pending_fits⟩
      exact (hnothing.process rfl rfl).forget
  | load =>
    obtain ⟨settled, current, r, hchain⟩ := h.chain
    refine ⟨torn, none, ?_, hsteps⟩
    simp only [World.step, Ledger.step, h.stored.load hchain]
    exact h.forget.process rfl rfl

lemma Live.run (hsteps : Orderly sha fmt nameSpace l torn pending steps) :
    ∀ pre, pre <+: steps → ∃ torn' pending', Live sha fmt nameSpace
      (pre.foldl (World.step sha fmt nameSpace) w) (pre.foldl (Ledger.step fmt nameSpace) l)
      torn' pending' := by
  induction steps generalizing w l torn pending with
  | nil =>
    intro pre hpre
    rw [prefix_nil.1 hpre]
    exact ⟨torn, pending, h⟩
  | cons step steps ih =>
    intro pre hpre
    cases pre with
    | nil => exact ⟨torn, pending, h⟩
    | cons step' pre =>
      obtain ⟨rfl, htail⟩ := cons_prefix_cons.1 hpre
      obtain ⟨torn', pending', hnext, hrest⟩ := h.step hsteps
      exact ih hnext hrest pre htail

end

/-- Along an orderly run every `Load` succeeds and returns the values of the marked blocks. -/
theorem recovery_exact (sha : Sha) (fmt : Format) (nameSpace : String) (steps : List Step)
    (h : Orderly sha fmt nameSpace {} false none steps) :
    ∀ pre, pre ++ [.load] <+: steps → Recovers sha fmt nameSpace pre := by
  intro pre hpre
  have hlive : Live sha fmt nameSpace ⟨DB.new nameSpace, {}⟩ {} false none :=
    ⟨stored_empty, ⟨[], [], Replay.start, chain_empty⟩, by simp⟩
  obtain ⟨torn, pending, hend⟩ := hlive.run h pre ((prefix_append _ _).trans hpre)
  obtain ⟨settled, current, r, hchain⟩ := hend.chain
  exact ⟨r.values, _, hchain.values, hend.stored.load hchain, rfl⟩

/-! ## Torn writes -/

def spineSha : Sha where
  priority := plainSha.priority
  priority_length := plainSha.priority_length
  empty := "e"
  node _ _ value right := value ++ right
  text := id

/-- A block that sets `x`. -/
def firstUpdates : List StateKV := [{ key := "x", value := "1" }]

def firstInfo : DeltaMetadata where
  blockHeight := 1
  blockHash := "a"
  parentHash := ""
  stateRootBefore := "e"
  stateRootAfter := "1e"

def tornMarker : List Step :=
  [.persist firstInfo firstUpdates, .crashMark (Storage.markerOf 1 "a") 1]

def tornRecord : List Step :=
  [.crashPersist firstInfo firstUpdates 1, .load, .persist firstInfo firstUpdates,
    .mark (Storage.markerOf 1 "a")]

/-- After a torn marker no `Load` succeeds, and after a torn record a `Load` succeeds without the
block that is committed next. -/
theorem recovery_torn : ¬ Recovers spineSha digitFormat "s" tornMarker ∧
      ¬ Recovers spineSha digitFormat "s" tornRecord := by
  constructor
  · rintro ⟨values, db, -, hload, -⟩
    have hfails : (load spineSha digitFormat (DB.new "s")
        (World.run spineSha digitFormat "s" tornMarker).disk).2 ≠ none := by decide +kernel
    rw [hload] at hfails
    exact hfails rfl
  · rintro ⟨values, db, hvalues, hload, rfl⟩
    have hlost : (load spineSha digitFormat (DB.new "s")
        (World.run spineSha digitFormat "s" tornRecord).disk).1.values.find "s::x" = none := by
      decide +kernel
    have hmarked : ((Ledger.run digitFormat "s" tornRecord).values spineSha "s").map
        (fun values => values.find "s::x") = some (some "1") := by decide +kernel
    rw [hload] at hlost
    rw [hvalues] at hmarked
    simp [hlost] at hmarked

def wholeRun : List Step :=
  [.persist firstInfo firstUpdates, .crashMark (Storage.markerOf 1 "a") 0, .load,
    .persist firstInfo firstUpdates, .mark (Storage.markerOf 1 "a"), .load]

theorem recovery_exact_wholeRun : Recovers spineSha digitFormat "s" (wholeRun.take 5) := by
  have hfits : ∀ records,
      (∀ other ∈ records, other = recordOf digitFormat "s" firstInfo firstUpdates) →
      Fits spineSha digitFormat "s" ⟨records,
        []⟩ (recordOf digitFormat "s" firstInfo firstUpdates) := by
    intro records hrecords
    exact
      { height := rfl
        parent := by simp
        roots :=
          ⟨∅, GoMap.put ∅ "s::x" "1", rfl, rfl, .inr (by decide +kernel), .inr (by decide +kernel)⟩
        unmarked := by simp
        same := fun other hother _ => hrecords other hother
        short := by decide +kernel }
  have hmarks : Marks digitFormat (some (recordOf digitFormat "s" firstInfo firstUpdates))
      (Storage.markerOf 1 "a") :=
    ⟨⟨_, rfl, rfl⟩, by decide, by decide +kernel⟩
  have hnone : ¬ (digitFormat.markers.line (Storage.markerOf 1 "a")).length ≤ 0 := by
    simp [LineFormat.line]
  have horderly : Orderly spineSha digitFormat "s" {} false none wholeRun := by
    simp only [Orderly, wholeRun, Ledger.step, hnone, if_false, true_and, and_true, true_or]
    exact ⟨hfits [] (by simp), hmarks,
      hfits [recordOf digitFormat "s" firstInfo firstUpdates] (by simp), hmarks⟩
  exact recovery_exact spineSha digitFormat "s" wholeRun horderly (wholeRun.take 5) ⟨[], rfl⟩

end ChainLab.State
