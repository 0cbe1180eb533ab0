import ChainLab.State.Recovery
import ChainLab.State.RootMatches

/-!
# Crashes inside a snapshot

Runs of a node that commits blocks, takes the snapshots that are due and restarts.  The log holds
the blocks since the last snapshot, and the snapshot with its metadata holds the blocks before
(`Durable`).
-/

namespace ChainLab.State

open List GoMap
open Journal
open Storage (CommitMarker committedBlockHashes scanLimit)
open DB
open LineFormat

/-! ## Runs -/

structure BlockRef where
  height : Nat
  hash : String
  parent : String
  deltaID : String := ""

def BlockRef.info (block : BlockRef) (before after : String) : DeltaMetadata :=
  ⟨block.height, block.hash, block.parent, block.deltaID, before, after⟩

inductive Event where
  | commit (block : BlockRef) (updates : List StateKV) (marker : CommitMarker)
  | snapshot (cadence : Int)
  | restart

structure Tip where
  height : Nat := 0
  hash : String := ""
  deltas : List String := []
  values : Snapshot := ∅

section

variable (sha : Sha) (fmt : Format) (nameSpace : String)

def commitRecord (db : DB) (block : BlockRef) (updates : List StateKV) : WalRecord :=
  recordOf fmt nameSpace
    (block.info (db.root sha) ((db.applyDeterministicBatch sha updates).1.root sha)) updates

/-- The batch is applied and its record is logged before the marker is written. -/
def World.commit (w : World) (block : BlockRef) (updates : List StateKV) (marker : CommitMarker) :
    World :=
  let next := (w.db.applyDeterministicBatch sha updates).1
  let logged := persistDelta fmt next w.disk (block.info (w.db.root sha) (next.root sha)) updates
  ⟨logged.1, logged.2.appendMarkers (fmt.markers.line marker)⟩

def World.event (w : World) : Event → World
  | .commit block updates marker => w.commit sha fmt block updates marker
  | .snapshot cadence =>
    let next := snapshotIfDue sha fmt w.db w.disk w.db.lastHeight cadence
    ⟨next.1, next.2⟩
  | .restart => ⟨(load sha fmt (DB.new nameSpace) w.disk).1, w.disk⟩

def World.after (events : List Event) : World :=
  events.foldl (World.event sha fmt nameSpace) ⟨DB.new nameSpace, {}⟩

/-- A batch that fails is not committed. -/
def Tip.event (tip : Tip) : Event → Tip
  | .commit block updates _ =>
    match applyStateKVs sha (DB.new nameSpace).nameSpace tip.values updates with
    | .error _ => tip
    | .ok values =>
      ⟨block.height, block.hash,
        (recordOf fmt nameSpace (block.info "" "") updates).deltaID :: tip.deltas, values⟩
  | _ => tip

def Tip.after (events : List Event) : Tip :=
  events.foldl (Tip.event sha fmt nameSpace) {}

/-- A `Load` of the directory succeeds and returns the values of the tip. -/
def Recovered (disk : Disk) (tip : Tip) : Prop :=
  ∃ db, load sha fmt (DB.new nameSpace) disk = (db, none) ∧ Same db.values tip.values

structure Extending (w : World) (tip : Tip) (block : BlockRef) (updates : List StateKV)
    (marker : CommitMarker) : Prop where
  height : block.height = tip.height + 1
  parent : tip.hash = "" ∨ block.parent = tip.hash
  applies : ∃ values, applyStateKVs sha (DB.new nameSpace).nameSpace tip.values updates = .ok values
  present : (Op.applyDeterministicBatch updates).Present sha w.db
  fresh : (recordOf fmt nameSpace (block.info "" "") updates).deltaID ∉ tip.deltas
  short : (fmt.record.encode (commitRecord sha fmt nameSpace w.db block updates)).length < scanLimit
  marker_hash : marker.blockHash = block.hash
  marker_valid : marker.row.valid = true
  marker_short : (fmt.markers.encode marker).length < scanLimit

/-- Commits extend the chain, and `SnapshotIfDue` is called after a commit. -/
def Admissible (w : World) (tip : Tip) : Event → Prop
  | .commit block updates marker => Extending sha fmt nameSpace w tip block updates marker
  | .snapshot _ => w.db.lastHeight = tip.height
  | .restart => True

def Proper : World → Tip → List Event → Prop
  | _, _, [] => True
  | w, tip, event :: events =>
    Admissible sha fmt nameSpace w tip event ∧
      Proper (w.event sha fmt nameSpace event) (tip.event sha fmt nameSpace event) events

/-! ## Crash points -/

def Hidden (writes : List Write) : Prop :=
  .backupSnapshot ∈ writes ∧ ∀ payload, .publishSnapshot payload ∉ writes

def Mixed (writes : List Write) : Prop :=
  (∃ payload, .publishSnapshot payload ∈ writes) ∧ ∀ payload, .publishMetadata payload ∉ writes

def snapshotValues (disk : Disk) : Snapshot :=
  putAll ∅ ((disk.snapshot.bind fmt.snapshot.decode).getD [])

def Disk.writes (disk : Disk) (writes : List Write) : Disk :=
  writes.foldl Write.apply disk

end

variable {sha : Sha} {fmt : Format} {nameSpace : String} {w : World} {tip : Tip} {disk : Disk}
  {records : List WalRecord} {markers : List CommitMarker} {generation : Nat}
      {m m' values : Snapshot} {block : BlockRef} {db : DB} {marker : CommitMarker}
  {updates : List StateKV} {bytes : Option Bytes} {α : Type}

lemma Same.symm (h : Same m m') : Same m' m := fun q => (h q).symm

lemma Same.trans {m'' : Snapshot} (h : Same m m') (h' : Same m' m'') : Same m m'' :=
  fun q => (h q).trans (h' q)

/-! ## The snapshot and the log -/

structure Base where
  values : Snapshot := ∅
  height : Nat := 0
  hash : String := ""

def Base.start (base : Base) : Replay := ⟨base.values, [], base.height, base.hash⟩

/-- The log, apart from the files, leads from the snapshot to the tip. -/
structure Logged (sha : Sha) (fmt : Format) (nameSpace : String) (base : Base)
    (records : List WalRecord) (markers : List CommitMarker) (tip : Tip) (r : Replay) : Prop where
  wellFormed : ∀ record ∈ records, WellFormed fmt (DB.new nameSpace).nameSpace record
  short : ∀ record ∈ records, (fmt.record.encode record).length < scanLimit
  base_le : base.height ≤ tip.height
  above : ∀ record ∈ records, base.height < record.blockHeight
  below : ∀ record ∈ records, record.blockHeight ≤ tip.height
  marked : ∀ record ∈ records, record.blockHash ∈ markers.map CommitMarker.blockHash
  first : ∀ record ∈ records.head?, record.stateRootBefore = snapshotRoot sha base.values
  replays : ReplaysTo sha fmt (DB.new nameSpace).nameSpace base.height
    (markers.map CommitMarker.blockHash).toFinset base.start records r
  values : Same r.values tip.values
  height : r.lastHeight = tip.height
  hash : r.lastHash = tip.hash
  deltas : ∀ deltaID ∈ r.applied, deltaID ∈ tip.deltas

/-- The files beside the snapshot and its metadata. -/
structure Files (fmt : Format) (nameSpace : String) (disk : Disk) (generation : Nat)
    (records : List WalRecord) (markers : List CommitMarker) : Prop where
  generation_pos : 0 < generation
  legacy : disk.legacy = none
  manifest : (disk.manifest = none ∧ generation = 1) ∨
    disk.manifest = some (walManifest fmt (DB.new nameSpace) generation)
  segments : ∀ g, g ≠ generation → disk.segments.find g = none
  log : (disk.segments.find generation).getD [] = fmt.record.file records
  markers_file : disk.markers.getD [] = fmt.markers.file markers
  markers_all : ∀ marker ∈ markers, marker.row.valid = true ∧
    (fmt.markers.encode marker).length < scanLimit

def Base.metadata (sha : Sha) (nameSpace : String) (base : Base) (generation : Nat) :
    SnapshotMetadata :=
  ⟨metadataVersion, (DB.new nameSpace).nameSpace, base.height, base.hash,
    snapshotRoot sha base.values, commitmentVersion, generation⟩

/-- The snapshot and its metadata, or neither. -/
def SnapshotFiles (sha : Sha) (fmt : Format) (nameSpace : String) (disk : Disk) (generation : Nat)
    (base : Base) : Prop :=
  (disk.snapshot = none ∧ disk.metadata = none ∧ generation = 1 ∧ base = {}) ∨
    (disk.snapshot = some (fmt.snapshot.encode (sortedEntries base.values)) ∧
      disk.metadata = some (fmt.metadata.encode (base.metadata sha nameSpace generation)))

/-- What holds between the events of a proper run. -/
structure Durable (sha : Sha) (fmt : Format) (nameSpace : String) (w : World) (tip : Tip)
    (base : Base) (records : List WalRecord) (markers : List CommitMarker) : Prop where
  nameSpace_eq : w.db.nameSpace = (DB.new nameSpace).nameSpace
  sound : w.db.Sound sha
  values : Same w.db.values tip.values
  tip_hash : w.db.lastHeight = tip.height → w.db.lastBlockHash = tip.hash
  genesis : tip.height = 0 → tip.hash = ""
  snapshot : SnapshotFiles sha fmt nameSpace w.disk w.db.walGeneration base
  files : Files fmt nameSpace w.disk w.db.walGeneration records markers
  logged : ∃ r, Logged sha fmt nameSpace base records markers tip r

/-- The blocks with a marker. -/
abbrev hashesOf (markers : List CommitMarker) : Finset String :=
  (markers.map CommitMarker.blockHash).toFinset

lemma logged_nil {base : Base} (hvals : Same base.values tip.values)
    (hht : base.height = tip.height) (hhash : base.hash = tip.hash) :
    Logged sha fmt nameSpace base [] markers tip base.start where
  wellFormed := by simp
  short := by simp
  base_le := hht.le
  above := by simp
  below := by simp
  marked := by simp
  first := by simp
  replays := rfl
  values := hvals
  height := hht
  hash := hhash
  deltas := by simp [Base.start]

lemma durable_new : Durable sha fmt nameSpace ⟨new nameSpace, {}⟩ {} {} [] [] where
  nameSpace_eq := rfl
  sound := Tree.Commits.nil
  values _ := rfl
  tip_hash _ := rfl
  genesis _ := rfl
  snapshot := .inl ⟨rfl, rfl, rfl, rfl⟩
  files :=
    { generation_pos := Nat.one_pos
      legacy := rfl
      manifest := .inl ⟨rfl, rfl⟩
      segments := fun _ _ => rfl
      log := rfl
      markers_file := rfl
      markers_all := by simp }
  logged := ⟨_, logged_nil (fun _ => rfl) rfl rfl⟩

/-! ## Loading from a base -/

variable {base : Base} {r : Replay}

section

variable (h : Files fmt nameSpace disk generation records markers)

include h

lemma Files.committed : committedBlockHashes fmt.markers disk.markers = .ok (hashesOf markers) :=
  committedBlockHashes_of_file h.markers_file h.markers_all

lemma Files.loadWALManifest : ∃ manifest, loadWALManifest fmt (new nameSpace) disk = .ok manifest ∧
      (manifest.activeGeneration = generation ∨ manifest = {} ∧ generation = 1) := by
  rcases h.manifest with ⟨hnone, hone⟩ | hsome
  · exact ⟨{}, by simp [State.loadWALManifest, hnone], .inr ⟨rfl, hone⟩⟩
  · refine ⟨⟨manifestVersion, (new nameSpace).nameSpace, generation⟩, ?_, .inl rfl⟩
    simp [State.loadWALManifest, hsome, walManifest, fmt.manifest.decode_encode]

lemma Files.replay (hlogged : Logged sha fmt nameSpace base records markers tip r)
    (hvals : Same base.values values) :
    ∃ s, (walSegments disk).foldlM (replaySegment sha fmt (new nameSpace).nameSpace base.height
        (hashesOf markers)) ⟨values, [], base.height, base.hash⟩ = .ok s ∧
      Same s.values tip.values := by
  have hstart : base.start.Same ⟨values, [], base.height, base.hash⟩ := ⟨hvals, rfl, rfl, rfl⟩
  obtain ⟨s, hrepl, hs⟩ := hstart.replaysTo hlogged.wellFormed hlogged.replays
  refine ⟨s, ?_, hs.values.symm.trans hlogged.values⟩
  have hlog := h.log
  rw [← append_nil (fmt.record.file records)] at hlog
  exact foldlM_replaySegment h.legacy h.segments hlog hlogged.short hrepl (.inl rfl)

end

lemma Files.replay_error (hsha : sha.CollisionFree)
    (h : Files fmt nameSpace disk generation records markers)
    (hlogged : Logged sha fmt nameSpace base records markers tip r)
    (hvals : ¬ Same base.values values) (hrecs : records ≠ []) (s : Replay) :
    (walSegments disk).foldlM (replaySegment sha fmt (new nameSpace).nameSpace base.height
      (hashesOf markers)) ⟨values, [], base.height, base.hash⟩ ≠ .ok s := by
  cases records with
  | nil => exact absurd rfl hrecs
  | cons record rest =>
    have hwell := hlogged.wellFormed record mem_cons_self
    have hroot := hlogged.first record rfl
    -- the root before the block is the one of the snapshot
    have hstep : ∀ g line s, replayRecord sha fmt (new nameSpace).nameSpace base.height
        (hashesOf markers) g line ⟨values, [], base.height, base.hash⟩ record ≠ .ok s := by
      intro g line s hok
      rw [replayRecord_of_wellFormed hwell, if_neg (hlogged.above record mem_cons_self).not_ge,
        if_neg (not_not.2 (mem_toFinset.2 (hlogged.marked record mem_cons_self))),
        if_neg not_mem_nil, applyRecord_eq_ok hwell] at hok
      obtain ⟨next, hcont, -⟩ := hok
      rcases hcont.before with hemp | hbef
      · exact hsha.hash_ne _ (hroot.symm.trans hemp)
      · exact hvals (snapshotRoot_inj hsha (hroot.symm.trans hbef))
    have hlog := h.log
    have hscan := scan_file hlogged.short
    intro hok
    rw [walSegments_eq h.legacy h.segments] at hok
    cases hfind : disk.segments.find generation with
    | none =>
      rw [hfind] at hlog
      exact absurd ((file_eq_nil _).1 hlog.symm) hrecs
    | some data =>
      rw [hfind, Option.getD_some] at hlog
      cases hrec : replayRecord sha fmt (new nameSpace).nameSpace base.height
          (hashesOf markers) generation 1 ⟨values, [], base.height, base.hash⟩ record with
      | ok s' => exact hstep _ _ _ hrec
      | error err =>
        simp [hfind, hlog, replaySegment, hscan, replayLines, fmt.record.decode_encode,
          hrec, bind, Except.bind] at hok

section

variable (h : Logged sha fmt nameSpace base records markers tip r)

include h

lemma Logged.same_base (hrecs : records = []) : Same base.values tip.values := by
  subst hrecs
  have hr : r = base.start := h.replays
  have hvals := h.values
  rw [hr] at hvals
  exact hvals

lemma Logged.records_eq_nil (hnone : hashesOf markers = ∅) : records = [] := by
  rw [toFinset_eq_empty_iff] at hnone
  rw [eq_nil_iff_forall_not_mem]
  intro record hrec
  have hmarked := h.marked record hrec
  rw [hnone] at hmarked
  cases hmarked

end

section Reading

variable {info : SnapshotMetadata} {values : Snapshot}

section

variable (hsha : sha.CollisionFree) (h : Files fmt nameSpace disk generation records markers)
  (hlogged : Logged sha fmt nameSpace base records markers tip r)
  (hinfo : loadSnapshotMetadata fmt (new nameSpace) disk = .ok info)
  (hht : info.includedHeight = base.height) (hhash : info.includedBlockHash = base.hash)
  (hsnap : loadSnapshot sha fmt disk info = .ok values)

include h hlogged hinfo hht hhash hsnap

lemma Files.load (hsame : Same base.values values) :
    ∃ manifest s, State.loadWALManifest fmt (new nameSpace) disk = .ok manifest ∧
      State.load sha fmt (new nameSpace) disk = ({ new nameSpace with
           values := s
           commitment := treeOf sha s
           walGeneration := loadedGeneration (new nameSpace) disk info manifest }, none) ∧
      Same s tip.values := by
  obtain ⟨manifest, hman, -⟩ := h.loadWALManifest
  obtain ⟨s, hreplay, hs⟩ := h.replay hlogged hsame
  by_cases hnone : hashesOf markers = ∅
  · have hload := load_eq_ok (r := ⟨values, [], 0, ""⟩) hinfo hman hsnap h.committed
      (fun _ => rfl) (fun hne => absurd hnone hne)
    exact ⟨manifest, values, hman, hload,
      hsame.symm.trans (hlogged.same_base (hlogged.records_eq_nil hnone))⟩
  · have hload := load_eq_ok (r := s) hinfo hman hsnap h.committed
      (fun heq => absurd heq hnone) (fun _ => by rw [hht, hhash]; exact hreplay)
    exact ⟨manifest, s.values, hman, hload, hs⟩

include hsha

/-- The log of a directory is read from the values of the snapshot file, at the height of the
snapshot. -/
lemma Files.recovered_iff : Recovered sha fmt nameSpace disk tip ↔ Same base.values values := by
  constructor
  · rintro ⟨db, hload, hdb⟩
    by_contra hsame
    obtain ⟨manifest, hman, -⟩ := h.loadWALManifest
    by_cases hrecs : records = []
    · -- nothing is replayed, and the values of the file are loaded
      have hreplay : (walSegments disk).foldlM (replaySegment sha fmt (new nameSpace).nameSpace
          base.height (hashesOf markers)) ⟨values, [], base.height, base.hash⟩ =
            .ok ⟨values, [], base.height, base.hash⟩ := by
        have hlog := h.log
        rw [← append_nil (fmt.record.file records)] at hlog
        apply foldlM_replaySegment h.legacy h.segments hlog hlogged.short _ (.inl rfl)
        rw [hrecs]
        rfl
      have hloaded := load_eq_ok (r := ⟨values, [], base.height, base.hash⟩) hinfo hman
        hsnap h.committed (fun _ => rfl) (fun _ => by rw [hht, hhash]; exact hreplay)
      have hvals : db.values = values := by
        rw [← congrArg (fun p => p.1.values) hload, hloaded]
      rw [hvals] at hdb
      exact hsame ((hlogged.same_base hrecs).trans hdb.symm)
    · -- the replay fails
      have hne : hashesOf markers ≠ ∅ := fun hnone => hrecs (hlogged.records_eq_nil hnone)
      have hwal : ∀ v, replayWAL sha fmt (new nameSpace).nameSpace disk values info ≠ .ok v := by
        intro v hok
        simp only [replayWAL, h.committed, if_neg hne, hht, hhash] at hok
        split at hok
        · cases hok
        · next s hs => exact h.replay_error hsha hlogged hsame hrecs s hs
      simp only [State.load, hinfo, hman, hsnap] at hload
      split at hload
      · cases hload
      · next v hv => exact hwal v hv
  · intro hsame
    obtain ⟨manifest, s, -, hload, hs⟩ := h.load hlogged hinfo hht hhash hsnap hsame
    exact ⟨_, hload, hs⟩

end

lemma loadSnapshotMetadata_encode
    (h : disk.metadata = some (fmt.metadata.encode (base.metadata sha nameSpace generation))) :
    loadSnapshotMetadata fmt (new nameSpace) disk =
      .ok (base.metadata sha nameSpace generation) := by
  simp only [loadSnapshotMetadata, h, fmt.metadata.decode_encode]
  exact if_pos ⟨rfl, rfl⟩

lemma loadSnapshot_encode (h : disk.snapshot = some (fmt.snapshot.encode (sortedEntries values))) :
    loadSnapshot sha fmt disk (base.metadata sha nameSpace generation) =
      if snapshotRoot sha base.values ≠ "" ∧ snapshotRoot sha values ≠ snapshotRoot sha base.values
      then .error (.snapshotRoot (snapshotRoot sha values) (snapshotRoot sha base.values))
      else .ok (putAll ∅ (sortedEntries values)) := by
  have hvers : ¬ metadataVersion = "" := by decide
  have hroot : ¬ commitmentVersion = "" := by decide
  have hvals := snapshotRoot_congr sha (find_putAll_sortedEntries values)
  simp only [loadSnapshot, h, fmt.snapshot.decode_encode, Base.metadata, hvers, hroot, if_false,
    rootForVersion_commitment, hvals]
  congr

end Reading

lemma SnapshotFiles.read (h : SnapshotFiles sha fmt nameSpace disk generation base) :
    ∃ info values, loadSnapshotMetadata fmt (new nameSpace) disk = .ok info ∧
      info.includedHeight = base.height ∧ info.includedBlockHash = base.hash ∧
      loadSnapshot sha fmt disk info = .ok values ∧ Same base.values values ∧
      ∀ manifest : WALManifest,
        (manifest.activeGeneration = generation ∧ 0 < generation ∨ manifest = {} ∧ generation = 1) →
        loadedGeneration (new nameSpace) disk info manifest = generation := by
  rcases h with ⟨hsnap, hmeta, hone, rfl⟩ | ⟨hsnap, hmeta⟩
  · refine ⟨{}, ∅, by simp [loadSnapshotMetadata, hmeta], rfl, rfl,
      by simp [loadSnapshot, hsnap], fun _ => rfl, ?_⟩
    rintro manifest (⟨hact, hpos⟩ | ⟨rfl, -⟩)
    · simp [loadedGeneration, hact, hpos]
    · simp [loadedGeneration, hsnap, hone, new]
  · refine ⟨base.metadata sha nameSpace generation, _, loadSnapshotMetadata_encode hmeta, rfl, rfl,
      (loadSnapshot_encode hsnap).trans (if_neg fun hne => hne.2 rfl),
      fun q => (find_putAll_sortedEntries base.values q).symm, ?_⟩
    rintro manifest (⟨hact, hpos⟩ | ⟨rfl, -⟩)
    · simp [loadedGeneration, hact, hpos]
    · have hvers : ¬ metadataVersion = "" := by decide
      simp [loadedGeneration, hsnap, Base.metadata, hvers]

/-! ## The events of a run -/

lemma fields_applyDeterministicBatch (sha : Sha) (updates : List StateKV) (db : DB) :
    (db.applyDeterministicBatch sha updates).1.nameSpace = db.nameSpace ∧
      (db.applyDeterministicBatch sha updates).1.walGeneration = db.walGeneration := by
  induction updates generalizing db with
  | nil => exact ⟨rfl, rfl⟩
  | cons item updates ih =>
    unfold applyDeterministicBatch
    split
    · exact ⟨rfl, rfl⟩
    · exact ih _

lemma Tip.event_commit (tip : Tip) (fmt : Format) (block : BlockRef) (marker : CommitMarker)
    (happly : applyStateKVs sha (new nameSpace).nameSpace tip.values updates = .ok values) :
    tip.event sha fmt nameSpace (.commit block updates marker) = ⟨block.height, block.hash,
      (recordOf fmt nameSpace (block.info "" "") updates).deltaID :: tip.deltas, values⟩ := by
  simp only [Tip.event, happly]

lemma Logged.commit (h : Logged sha fmt nameSpace base records markers tip r)
    (hns : db.nameSpace = (new nameSpace).nameSpace) (hsound : db.Sound sha)
    (hvals : Same db.values tip.values)
    (hext : Extending sha fmt nameSpace ⟨db, disk⟩ tip block updates marker)
    (happly : applyStateKVs sha (new nameSpace).nameSpace tip.values updates = .ok values) :
    Same (db.applyDeterministicBatch sha updates).1.values values ∧
    ∃ r', Logged sha fmt nameSpace base
      (records ++ [commitRecord sha fmt nameSpace db block updates])
      (markers ++ [marker]) (tip.event sha fmt nameSpace (.commit block updates marker)) r' := by
  set record' := commitRecord sha fmt nameSpace db block updates
  have hwell : WellFormed fmt (new nameSpace).nameSpace record' := wellFormed_deltaRecord _ _ _
  have htip := tip.event_commit fmt block marker happly
  -- the batch computes the same values on the database, on the tip and in the replay
  obtain ⟨live, hlive, hsamelive⟩ := hvals.symm.applyStateKVs happly
  obtain ⟨replayed, hreplayed, hsamereplayed⟩ := h.values.symm.applyStateKVs happly
  have hnext : (db.applyDeterministicBatch sha updates).1.values = live :=
    values_applyDeterministicBatch updates db (hns ▸ hlive)
  have hsoundnext := (hsound.applyDeterministicBatch_iff updates).2 hext.present
  have hbef : db.root sha = snapshotRoot sha r.values :=
    hsound.matches.trans (snapshotRoot_congr sha (hvals.trans h.values.symm))
  have hafter :
      (db.applyDeterministicBatch sha updates).1.root sha = snapshotRoot sha replayed := by
    have hsame : Same (db.applyDeterministicBatch sha updates).1.values replayed :=
      hnext ▸ hsamelive.symm.trans hsamereplayed
    exact hsoundnext.matches.trans (snapshotRoot_congr sha hsame)
  have hcomm : ∀ record ∈ records, (record.blockHash ∈ hashesOf markers ↔
      record.blockHash ∈ hashesOf (markers ++ [marker])) := by
    intro record hrec
    have hmarked := h.marked record hrec
    simp only [map_append, mem_toFinset, mem_append, hmarked, true_or]
  have hstep : RecordStep sha fmt (new nameSpace).nameSpace base.height
      (hashesOf (markers ++ [marker])) r record' (r.next record' replayed) := by
    apply recordStep_apply hwell
    · have hht : record'.blockHeight = tip.height + 1 := hext.height
      have hbase := h.base_le
      omega
    · rw [mem_toFinset, map_append, mem_append]
      exact .inr (mem_singleton.2 hext.marker_hash.symm)
    · exact fun happ => hext.fresh (h.deltas _ happ)
    · refine (applyRecord_eq_ok hwell).2 ⟨replayed,
        ⟨.inr ?_, ?_, .inr hbef, hreplayed, .inr hafter⟩, rfl⟩
      · rw [h.height]
        exact hext.height
      · rw [h.hash]
        exact hext.parent
  refine ⟨hnext ▸ hsamelive.symm, r.next record' replayed, ?_⟩
  rw [htip]
  have hle : tip.height ≤ block.height := hext.height.symm ▸ Nat.le_succ _
  have hall : ∀ {P : WalRecord → Prop}, (∀ record ∈ records, P record) →
      P record' → ∀ record ∈ records ++ [record'], P record := by
    intro P hold hnew
    exact forall_mem_append.2 ⟨hold, forall_mem_singleton.2 hnew⟩
  exact
    { wellFormed := hall h.wellFormed hwell
      short := hall h.short hext.short
      base_le := h.base_le.trans hle
      above := by
        apply hall h.above
        have hlt : base.height < block.height := lt_of_le_of_lt h.base_le
          (hext.height.symm ▸ Nat.lt_succ_self _)
        exact hlt
      below := hall (fun record hrec => (h.below record hrec).trans hle) (le_refl _)
      marked := by
        apply hall
        · intro record hrec
          rw [map_append]
          exact mem_append_left _ (h.marked record hrec)
        · rw [map_append]
          exact mem_append_right _ (mem_singleton.2 hext.marker_hash.symm)
      first := by
        intro record hrec
        cases hrecs : records with
        | nil =>
          -- the first record after a snapshot
          rw [hrecs] at hrec
          cases hrec
          have hr : r = base.start := by
            have hrepl := h.replays
            rw [hrecs] at hrepl
            exact hrepl
          rw [hr] at hbef
          exact hbef
        | cons first rest =>
          exact h.first record (hrecs ▸ hrec)
      replays := replaysTo_append (replaysTo_congr hcomm h.replays) ⟨_, hstep, rfl⟩
      values := hsamereplayed.symm
      height := rfl
      hash := rfl
      deltas := by
        intro deltaID hdelta
        rcases mem_cons.1 hdelta with rfl | hold
        · exact mem_cons_self
        · exact mem_cons_of_mem _ (h.deltas _ hold) }

lemma Files.commit (h : Files fmt nameSpace disk generation records markers)
    (info : DeltaMetadata) (updates : List StateKV) (hns : db.nameSpace = (new nameSpace).nameSpace)
    (hgen : db.walGeneration = generation) (hval : marker.row.valid = true)
    (hshort : (fmt.markers.encode marker).length < scanLimit) :
    (persistDelta fmt db disk info updates).1 =
        { db with lastHeight := info.blockHeight, lastBlockHash := info.blockHash } ∧
      (SnapshotFiles sha fmt nameSpace disk generation base → SnapshotFiles sha fmt nameSpace
        ((persistDelta fmt db disk info updates).2.appendMarkers (fmt.markers.line marker))
          generation
        base) ∧
      Files fmt nameSpace
        ((persistDelta fmt db disk info updates).2.appendMarkers (fmt.markers.line marker))
          generation
        (records ++ [recordOf fmt nameSpace info updates]) (markers ++ [marker]) := by
  subst hgen
  have hman : walManifest fmt db db.walGeneration =
      walManifest fmt (new nameSpace) db.walGeneration := walManifest_congr hns _
  have hopen := openWAL_eq h.generation_pos (hman.symm ▸ h.manifest.imp And.left id)
  have hseg : walSegment db.walGeneration = db.walGeneration := if_neg h.generation_pos.ne'
  have hrec : deltaRecord fmt db info updates = recordOf fmt nameSpace info updates :=
    deltaRecord_congr hns info updates
  simp only [persistDelta, persistBytes, hopen, hseg, hrec, take_length, true_and]
  refine ⟨id, h.generation_pos, h.legacy, .inr (congrArg some hman), ?_, ?_, ?_, ?_⟩
  · intro g hne
    simp only [Disk.appendMarkers, Disk.append, find_put_ne _ _ hne]
    exact h.segments g hne
  · simp only [Disk.appendMarkers, Disk.append, find_put_self, Option.getD_some, h.log,
      file_append, file_singleton]
  · simp only [Disk.appendMarkers, Disk.append, Option.getD_some, h.markers_file,
      file_append, file_singleton]
  · exact forall_mem_append.2 ⟨h.markers_all, forall_mem_singleton.2 ⟨hval, hshort⟩⟩

section

variable (h : Durable sha fmt nameSpace w tip base records markers)

include h

lemma Durable.commit (hext : Extending sha fmt nameSpace w tip block updates marker) :
    Durable sha fmt nameSpace (w.event sha fmt nameSpace (.commit block updates marker))
      (tip.event sha fmt nameSpace (.commit block updates marker)) base
      (records ++ [commitRecord sha fmt nameSpace w.db block updates]) (markers ++ [marker]) := by
  obtain ⟨r, hlogged⟩ := h.logged
  obtain ⟨values, happly⟩ := hext.applies
  obtain ⟨hvals, r', hlogged'⟩ := hlogged.commit h.nameSpace_eq h.sound h.values hext happly
  obtain ⟨hns, hgen⟩ := fields_applyDeterministicBatch sha updates w.db
  have hsound := (h.sound.applyDeterministicBatch_iff updates).2 hext.present
  have htip := tip.event_commit fmt block marker happly
  rcases h.files.commit (block.info (w.db.root sha)
      ((w.db.applyDeterministicBatch sha updates).1.root sha)) updates
      (hns.trans h.nameSpace_eq) hgen hext.marker_valid hext.marker_short with
    ⟨hdb, hsnap, hfiles⟩
  refine
    { nameSpace_eq := ?_
      sound := ?_
      values := ?_
      tip_hash := ?_
      genesis := ?_
      snapshot := ?_
      files := ?_
      logged := ⟨r', hlogged'⟩ }
  all_goals simp only [World.event, World.commit, hdb, htip]
  · exact hns.trans h.nameSpace_eq
  · exact hsound
  · exact hvals
  · exact fun _ => rfl
  · intro hzero
    rw [hext.height] at hzero
    cases hzero
  · rw [hgen]
    exact hsnap h.snapshot
  · rw [hgen]
    exact hfiles

lemma Durable.restart :
    Durable sha fmt nameSpace (w.event sha fmt nameSpace .restart) tip base records markers := by
  obtain ⟨r, hlogged⟩ := h.logged
  obtain ⟨info, values, hinfo, hht, hhash, hsnap, hsame, hgen⟩ := h.snapshot.read
  rcases h.files.load hlogged hinfo hht hhash hsnap hsame with ⟨manifest, s, hman, hload, hs⟩
  have hact : loadedGeneration (new nameSpace) w.disk info manifest = w.db.walGeneration := by
    apply hgen
    obtain ⟨manifest', hman', hcases⟩ := h.files.loadWALManifest
    have heq : manifest = manifest' := Except.ok.inj (hman.symm.trans hman')
    exact heq ▸ hcases.imp (fun hact => ⟨hact, h.files.generation_pos⟩) id
  simp only [World.event, hload, hact]
  exact
    { h with
      nameSpace_eq := rfl
      sound := commits_treeOf sha s
      values := hs
      tip_hash := fun hzero => (h.genesis hzero.symm).symm }

end

/-! ## The writes of a snapshot -/

/-- From the new metadata on: the segments that are there have no record after the snapshot. -/
structure Renewed (sha : Sha) (fmt : Format) (nameSpace : String) (base : Base) (generation : Nat)
    (records : List WalRecord) (markers : Option Bytes) (disk : Disk) : Prop where
  legacy : disk.legacy = none
  snapshot : disk.snapshot = some (fmt.snapshot.encode (sortedEntries base.values))
  metadata : disk.metadata = some (fmt.metadata.encode (base.metadata sha nameSpace generation))
  manifest : disk.manifest = none ∨ ∃ g, disk.manifest = some (walManifest fmt (DB.new nameSpace) g)
  segments : ∀ g data, disk.segments.find g = some data → data = [] ∨ data = fmt.record.file records
  markers_eq : disk.markers = markers

def Rotates (fmt : Format) (nameSpace : String) : Write → Prop
  | .temporary | .truncateSegment _ | .removeSegment _ => True
  | .publishManifest payload => ∃ g, payload = walManifest fmt (DB.new nameSpace) g
  | _ => False

section

variable (h : Renewed sha fmt nameSpace base generation records bytes disk)

include h

lemma Renewed.apply {write : Write} (hwrite : Rotates fmt nameSpace write) :
    Renewed sha fmt nameSpace base generation records bytes (write.apply disk) := by
  cases write with
  | temporary => exact h
  | publishManifest payload =>
    obtain ⟨g, rfl⟩ := hwrite
    exact { h with manifest := .inr ⟨g, rfl⟩ }
  | truncateSegment g =>
    refine { h with segments := ?_ }
    intro g' data hfind
    obtain ⟨-, rfl⟩ | hfind := of_find_put hfind
    · exact .inl rfl
    · exact h.segments g' data hfind
  | removeSegment g =>
    refine { h with segments := ?_ }
    intro g' data hfind
    exact h.segments g' data (of_find_delete hfind)
  | removeBackup | backupSnapshot | publishSnapshot payload
  | publishMetadata payload => exact hwrite.elim

lemma Renewed.writes {writes : List Write} (hwrs : ∀ write ∈ writes, Rotates fmt nameSpace write) :
    Renewed sha fmt nameSpace base generation records bytes (disk.writes writes) := by
  refine foldlRecOn (motive := Renewed sha fmt nameSpace base generation records bytes) writes
    _ h ?_
  exact fun disk hdisk write hwrite => hdisk.apply (hwrs write hwrite)

end

lemma foldlM_eq_ok {β ε : Type} {f : β → α → Except ε β} {b : β} {xs : List α}
    (h : ∀ x ∈ xs, f b x = .ok b) : xs.foldlM f b = .ok b := by
  induction xs with
  | nil => rfl
  | cons x xs ih =>
    rw [foldlM_cons, h x mem_cons_self]
    exact ih fun y hy => h y (mem_cons_of_mem _ hy)

lemma Renewed.recovered {committed : Finset String}
    (h : Renewed sha fmt nameSpace base generation records bytes disk)
    (hcomm : committedBlockHashes fmt.markers bytes = .ok committed)
    (hwell : ∀ record ∈ records, WellFormed fmt (new nameSpace).nameSpace record)
    (hshort : ∀ record ∈ records, (fmt.record.encode record).length < scanLimit)
    (hbelow : ∀ record ∈ records, record.blockHeight ≤ base.height)
    (hvals : Same base.values tip.values) : Recovered sha fmt nameSpace disk tip := by
  have hinfo := loadSnapshotMetadata_encode h.metadata
  have hsnap : loadSnapshot sha fmt disk (base.metadata sha nameSpace generation) =
      .ok (putAll ∅ (sortedEntries base.values)) :=
    (loadSnapshot_encode h.snapshot).trans (if_neg fun hne => hne.2 rfl)
  obtain ⟨manifest, hman⟩ : ∃ manifest,
      loadWALManifest fmt (new nameSpace) disk = .ok manifest := by
    rcases h.manifest with hnone | ⟨g, hsome⟩
    · exact ⟨{}, by simp [loadWALManifest, hnone]⟩
    · exact ⟨⟨manifestVersion, (new nameSpace).nameSpace, g⟩, by
        simp [loadWALManifest, hsome, walManifest, fmt.manifest.decode_encode]⟩
  let start : Replay := ⟨putAll ∅ (sortedEntries base.values), [], base.height, base.hash⟩
  have hskip : ∀ g rows, rows = [] ∨ rows = fmt.record.file records →
      replaySegment sha fmt (new nameSpace).nameSpace base.height committed start (g, rows) =
        .ok start := by
    intro g rows hrows
    -- an empty segment is the file of no record
    obtain ⟨some, rfl, hsub⟩ : ∃ some, rows = fmt.record.file some ++ [] ∧
        ∀ record ∈ some, record ∈ records := by
      rcases hrows with rfl | rfl
      · exact ⟨[], rfl, by simp⟩
      · exact ⟨records, (append_nil _).symm, fun _ hrec => hrec⟩
    refine replaySegment_file g (fun x hx => hshort x (hsub x hx)) (replaysTo_skip ?_) (.inl rfl)
    intro record hrec
    exact recordStep_skip (hwell record (hsub record hrec))
      (.inl (hbelow record (hsub record hrec)))
  have hreplay : (walSegments disk).foldlM
      (replaySegment sha fmt (new nameSpace).nameSpace base.height committed) start =
        .ok start := by
    apply foldlM_eq_ok
    intro segment hseg
    rw [walSegments, h.legacy] at hseg
    obtain ⟨g, hg, rfl⟩ := mem_map.1 hseg
    obtain ⟨data, hfind⟩ := mem_sortedKeys.1 hg
    apply hskip
    rw [hfind]
    exact h.segments g data hfind
  have hload := load_eq_ok (r := start) hinfo hman hsnap (h.markers_eq ▸ hcomm)
    (fun _ => rfl) (fun _ => hreplay)
  refine ⟨_, hload, ?_⟩
  intro q
  exact (find_putAll_sortedEntries base.values q).trans (hvals q)

def hidingWrites (disk : Disk) : List Write :=
  [.temporary, .removeBackup] ++ if disk.snapshot.isSome then [.backupSnapshot] else []

def rotationWrites (fmt : Format) (db : DB) (disk : Disk) : List Write :=
  [.temporary, .publishManifest (walManifest fmt db (db.walGeneration + 1)),
    .truncateSegment (db.walGeneration + 1)] ++
    (disk.segments.sortedKeys.filter fun g => g ≠ db.walGeneration + 1).map Write.removeSegment

def Base.of (db : DB) : Base := ⟨db.values, db.lastHeight, db.lastBlockHash⟩

def Disk.renewed (fmt : Format) (db : DB) (disk : Disk) (backup : Option Bytes) : Disk :=
  { disk with backup := backup, snapshot := some (fmt.snapshot.encode (sortedEntries db.values)) }

lemma snapshotWrites_eq (sha : Sha) (fmt : Format) (db : DB) (disk : Disk) (height : Nat) :
    snapshotWrites sha fmt db disk height =
      hidingWrites disk ++ .publishSnapshot (fmt.snapshot.encode (sortedEntries db.values)) ::
        ([.removeBackup, .temporary] ++
          .publishMetadata (fmt.metadata.encode (snapshotMetadata sha db height)) ::
            rotationWrites fmt db disk) := by
  have hseg : walSegment (db.walGeneration + 1) = db.walGeneration + 1 :=
    if_neg (Nat.succ_ne_zero _)
  simp [snapshotWrites, writeSnapshot, hidingWrites, rotationWrites, hseg]

lemma writes_append (disk : Disk) (writes writes' : List Write) :
    disk.writes (writes ++ writes') = (disk.writes writes).writes writes' :=
  foldl_append

def Quiet : Write → Prop
  | .temporary | .removeBackup => True
  | _ => False

lemma writes_quiet {writes : List Write} (h : ∀ write ∈ writes, Quiet write) (disk : Disk) :
    ∃ backup, disk.writes writes = { disk with backup := backup } := by
  refine foldlRecOn (motive := fun d : Disk => ∃ backup, d = { disk with backup := backup })
    writes _
    ⟨disk.backup, rfl⟩ ?_
  rintro d ⟨backup, rfl⟩ write hmem
  have hwrite := h write hmem
  cases write with
  | temporary | removeBackup => exact ⟨_, rfl⟩
  | _ => exact hwrite.elim

lemma writes_hidingWrites (disk : Disk) :
    ∃ backup, disk.writes (hidingWrites disk) = { disk with backup := backup, snapshot :=
      none } := by
  unfold hidingWrites
  by_cases hsnap : disk.snapshot.isSome = true
  · exact ⟨disk.snapshot, by simp [hsnap, Disk.writes, Write.apply]⟩
  · have hnone : disk.snapshot = none := by simpa using hsnap
    exact ⟨none, by simp [Disk.writes, Write.apply, hnone]⟩

lemma prefix_append_cons {xs ys zs : List α} {a : α} (h : xs <+: ys ++ a :: zs) :
    xs <+: ys ∨ ∃ us, us <+: zs ∧ xs = ys ++ a :: us := by
  obtain ⟨rest, h⟩ := h
  rcases append_eq_append_iff.1 h with ⟨us, rfl, -⟩ | ⟨us, rfl, hus⟩
  · exact .inl (prefix_append _ _)
  cases us with
  | nil => exact .inl (by simp)
  | cons u us =>
    obtain ⟨rfl, rfl⟩ := cons.inj hus
    exact .inr ⟨us, prefix_append _ _, rfl⟩

lemma crash_cases {height : Nat} {writes : List Write}
    (h : writes <+: snapshotWrites sha fmt db disk height) :
    (¬ Hidden writes ∧ ¬ Mixed writes ∧ ∃ backup,
      disk.writes writes = { disk with backup := backup }) ∨
    (Hidden writes ∧ ¬ Mixed writes ∧ disk.snapshot.isSome ∧
      ∃ backup, disk.writes writes = { disk with backup := backup, snapshot := none }) ∨
    (¬ Hidden writes ∧ Mixed writes ∧ ∃ backup, disk.writes writes = disk.renewed fmt db backup) ∨
    (¬ Hidden writes ∧ ¬ Mixed writes ∧ ∃ backup rest, rest <+: rotationWrites fmt db disk ∧
      disk.writes writes = Disk.writes { disk.renewed fmt db backup with
          metadata := some (fmt.metadata.encode (snapshotMetadata sha db height)) } rest) := by
  rw [snapshotWrites_eq] at h
  obtain ⟨backup, hhiding⟩ := writes_hidingWrites disk
  have hquiet : ∀ write ∈ [Write.temporary, .removeBackup], Quiet write := by simp [Quiet]
  -- neither the new snapshot nor the new metadata is written first
  have hnew : ∀ write ∈ hidingWrites disk, ∀ payload,
      write ≠ .publishSnapshot payload ∧ write ≠ .publishMetadata payload := by
    intro write hwrite payload
    unfold hidingWrites at hwrite
    constructor <;> rintro rfl <;> simp at hwrite
  rcases prefix_append_cons h with hinit | ⟨tail, htail, rfl⟩
  · have hmixed : ¬ Mixed writes := by
      rintro ⟨⟨payload, hmem⟩, -⟩
      exact (hnew _ (hinit.subset hmem) payload).1 rfl
    have hcases : writes <+: [.temporary, .removeBackup] ∨
        disk.snapshot.isSome ∧ writes = hidingWrites disk := by
      by_cases hsnap : disk.snapshot.isSome = true
      · have hwhole : hidingWrites disk = [.temporary, .removeBackup] ++ .backupSnapshot :: [] := by
          simp [hidingWrites, hsnap]
        rw [hwhole] at hinit ⊢
        rcases prefix_append_cons hinit with hpre | ⟨rest, hrest, rfl⟩
        · exact .inl hpre
        · exact .inr ⟨hsnap, by rw [prefix_nil.1 hrest]⟩
      · exact .inl (by simpa [hidingWrites, hsnap] using hinit)
    rcases hcases with hpre | ⟨hsnap, rfl⟩
    · refine .inl ⟨fun hhidden => ?_, hmixed, ?_⟩
      · exact hquiet _ (hpre.subset hhidden.1)
      · exact writes_quiet (fun write hwrite => hquiet write (hpre.subset hwrite)) disk
    · refine .inr (.inl ⟨⟨by simp [hidingWrites, hsnap], ?_⟩, hmixed, hsnap, backup, hhiding⟩)
      exact fun payload hmem => (hnew _ hmem payload).1 rfl
  · right
    right
    have hhidden : ¬ Hidden (hidingWrites disk ++
        .publishSnapshot (fmt.snapshot.encode (sortedEntries db.values)) :: tail) := by
      rintro ⟨-, hnone⟩
      exact hnone _ (mem_append_right _ mem_cons_self)
    have hrenewed : ∀ rest, disk.writes (hidingWrites disk ++
        .publishSnapshot (fmt.snapshot.encode (sortedEntries db.values)) :: rest) =
        (disk.renewed fmt db backup).writes rest := by
      intro rest
      rw [writes_append, hhiding]
      rfl
    have hafter : ∀ write ∈ [Write.removeBackup, .temporary], Quiet write := by simp [Quiet]
    rcases prefix_append_cons htail with hinit | ⟨rest, hrest, rfl⟩
    · refine .inl ⟨hhidden, ⟨⟨_, mem_append_right _ mem_cons_self⟩, ?_⟩, ?_⟩
      · intro payload hmem
        rcases mem_append.1 hmem with hmem | hmem
        · exact (hnew _ hmem payload).2 rfl
        rcases mem_cons.1 hmem with heq | hmem
        · cases heq
        · exact hafter _ (hinit.subset hmem)
      · rcases writes_quiet (fun write hwrite => hafter write (hinit.subset hwrite))
          (disk.renewed fmt db backup) with ⟨backup', hwrs⟩
        exact ⟨backup', (hrenewed tail).trans hwrs⟩
    · refine .inr ⟨hhidden, ?_, none, rest, hrest, ?_⟩
      · rintro ⟨-, hnone⟩
        exact hnone _ (mem_append_right _ (mem_cons_of_mem _ (mem_append_right _ mem_cons_self)))
      · rw [hrenewed]
        rfl

/-! ## Crash points -/

lemma Files.frame (h : Files fmt nameSpace disk generation records markers)
    (backup snapshot metadata : Option Bytes) :
    Files fmt nameSpace { disk with backup := backup, snapshot := snapshot, metadata := metadata }
      generation records markers :=
  { h with }

lemma SnapshotFiles.snapshotValues (h : SnapshotFiles sha fmt nameSpace disk generation base) :
    Same (snapshotValues fmt disk) base.values := by
  rcases h with ⟨hsnap, -, -, rfl⟩ | ⟨hsnap, -⟩
  · intro q
    simp [State.snapshotValues, hsnap, putAll]
  · simp only [State.snapshotValues, hsnap, Option.bind_some, fmt.snapshot.decode_encode,
      Option.getD_some]
    exact find_putAll_sortedEntries base.values

lemma rotates_rotationWrites (hns : db.nameSpace = (new nameSpace).nameSpace) :
    ∀ write ∈ rotationWrites fmt db disk, Rotates fmt nameSpace write := by
  intro write hwrite
  rcases mem_append.1 hwrite with hwrite | hwrite
  · simp only [mem_cons, not_mem_nil, or_false] at hwrite
    rcases hwrite with rfl | rfl | rfl
    · exact trivial
    · exact ⟨_, walManifest_congr hns _⟩
    · exact trivial
  · obtain ⟨g, -, rfl⟩ := mem_map.1 hwrite
    exact trivial

section

variable (hsha : sha.CollisionFree) (h : Durable sha fmt nameSpace w tip base records markers)
include h

lemma Durable.snapshotMetadata : snapshotMetadata sha w.db w.db.lastHeight =
      (Base.of w.db).metadata sha nameSpace (w.db.walGeneration + 1) := by
  have hroot : w.db.root sha = snapshotRoot sha w.db.values := h.sound.matches
  simp only [State.snapshotMetadata, Base.metadata, Base.of, h.nameSpace_eq, hroot]

lemma Durable.renewed (backup : Option Bytes) {rest : List Write}
    (hrest : rest <+: rotationWrites fmt w.db w.disk) :
    Renewed sha fmt nameSpace (Base.of w.db) (w.db.walGeneration + 1) records w.disk.markers
      (Disk.writes { w.disk.renewed fmt w.db backup with
        metadata := some (fmt.metadata.encode (State.snapshotMetadata sha w.db w.db.lastHeight)) }
        rest) := by
  apply Renewed.writes
  · refine ⟨h.files.legacy, rfl, ?_, ?_, ?_, rfl⟩
    · rw [h.snapshotMetadata]
    · exact h.files.manifest.imp And.left fun hsome => ⟨_, hsome⟩
    intro g data hfind
    by_cases hg : g = w.db.walGeneration
    · subst hg
      have hlog := h.files.log
      simp only [Disk.renewed] at hfind
      rw [hfind] at hlog
      exact .inr hlog
    · have hnone := h.files.segments g hg
      simp only [Disk.renewed] at hfind
      rw [hfind] at hnone
      cases hnone
  · exact fun write hwrite => rotates_rotationWrites h.nameSpace_eq write (hrest.subset hwrite)

include hsha

lemma Durable.hidden_iff (hsome : w.disk.snapshot.isSome) (backup : Option Bytes) :
    Recovered sha fmt nameSpace { w.disk with backup := backup, snapshot := none } tip ↔
      Same (snapshotValues fmt w.disk) ∅ := by
  obtain ⟨r, hlogged⟩ := h.logged
  rcases h.snapshot with ⟨hnone, -⟩ | ⟨-, hmeta⟩
  · rw [hnone] at hsome
    cases hsome
  · have hfiles := h.files.frame backup none w.disk.metadata
    have hread : loadSnapshot sha fmt { w.disk with backup := backup, snapshot := none }
        (base.metadata sha nameSpace w.db.walGeneration) = .ok ∅ := rfl
    rw [hfiles.recovered_iff hsha hlogged (loadSnapshotMetadata_encode hmeta) rfl rfl hread]
    exact ⟨h.snapshot.snapshotValues.trans, h.snapshot.snapshotValues.symm.trans⟩

lemma Durable.mixed_iff (backup : Option Bytes) :
    Recovered sha fmt nameSpace (w.disk.renewed fmt w.db backup) tip ↔
      Same w.db.values (snapshotValues fmt w.disk) := by
  obtain ⟨r, hlogged⟩ := h.logged
  have hvals := find_putAll_sortedEntries w.db.values
  have hold := h.snapshot.snapshotValues
  have hfiles : Files fmt nameSpace (w.disk.renewed fmt w.db backup) w.db.walGeneration records
      markers := h.files.frame backup _ w.disk.metadata
  have hsame : Same base.values (putAll ∅ (sortedEntries w.db.values)) ↔
      Same w.db.values (snapshotValues fmt w.disk) := by
    constructor
    · intro heq q
      exact (hvals q).symm.trans ((heq q).symm.trans (hold q).symm)
    · intro heq q
      exact (hold q).symm.trans ((heq q).symm.trans (hvals q).symm)
  rw [← hsame]
  rcases h.snapshot with ⟨hnone, hmeta, -, rfl⟩ | ⟨-, hmeta⟩
  · -- the first snapshot: without metadata nothing is checked
    have hinfo : loadSnapshotMetadata fmt (new nameSpace) (w.disk.renewed fmt w.db backup) =
        .ok {} := by
      simp [loadSnapshotMetadata, Disk.renewed, hmeta]
    apply hfiles.recovered_iff hsha hlogged hinfo rfl rfl
    simp [loadSnapshot, Disk.renewed, fmt.snapshot.decode_encode]
  · have hinfo : loadSnapshotMetadata fmt (new nameSpace) (w.disk.renewed fmt w.db backup) = _ :=
      loadSnapshotMetadata_encode hmeta
    have hload : loadSnapshot sha fmt (w.disk.renewed fmt w.db backup)
        (base.metadata sha nameSpace w.db.walGeneration) = _ := loadSnapshot_encode rfl
    by_cases hroot : snapshotRoot sha w.db.values = snapshotRoot sha base.values
    · rw [if_neg (fun hne => hne.2 hroot)] at hload
      exact hfiles.recovered_iff hsha hlogged hinfo rfl rfl hload
    rw [if_pos ⟨hsha.hash_ne _, hroot⟩] at hload
    refine iff_of_false ?_ ?_
    · rintro ⟨db, hloaded, -⟩
      obtain ⟨manifest, hman, -⟩ := hfiles.loadWALManifest
      simp only [load, hinfo, hman, hload] at hloaded
      cases hloaded
    · intro heq
      exact hroot (snapshotRoot_congr sha fun q => (hvals q).symm.trans (heq q).symm)

lemma Durable.crash_iff (hcalled : w.db.lastHeight = tip.height) {writes : List Write}
    (hwrs : writes <+: snapshotWrites sha fmt w.db w.disk w.db.lastHeight) :
    Recovered sha fmt nameSpace (w.disk.writes writes) tip ↔
      (Hidden writes → Same (snapshotValues fmt w.disk) ∅) ∧
        (Mixed writes → Same w.db.values (snapshotValues fmt w.disk)) := by
  obtain ⟨r, hlogged⟩ := h.logged
  rcases crash_cases hwrs with ⟨hhidden, hmixed, backup, hdisk⟩ |
    ⟨hhidden, hmixed, hsome, backup, hdisk⟩ | ⟨hhidden, hmixed, backup, hdisk⟩ |
    ⟨hhidden, hmixed, backup, rest, hrest, hdisk⟩
  · -- nothing has changed for a reader
    refine iff_of_true ?_ ⟨fun hh => absurd hh hhidden, fun hm => absurd hm hmixed⟩
    obtain ⟨info, values, hinfo, hht, hhash, hread, hsame, -⟩ := h.snapshot.read
    rw [hdisk]
    exact ((h.files.frame backup w.disk.snapshot w.disk.metadata).recovered_iff hsha hlogged hinfo
      hht hhash hread).2 hsame
  · rw [hdisk, h.hidden_iff hsha hsome backup]
    exact ⟨fun hsame => ⟨fun _ => hsame, fun hm => absurd hm hmixed⟩, fun hall => hall.1 hhidden⟩
  · rw [hdisk, h.mixed_iff hsha backup]
    exact ⟨fun hsame => ⟨fun hh => absurd hh hhidden, fun _ => hsame⟩, fun hall => hall.2 hmixed⟩
  · refine iff_of_true ?_ ⟨fun hh => absurd hh hhidden, fun hm => absurd hm hmixed⟩
    rw [hdisk]
    apply (h.renewed backup hrest).recovered h.files.committed hlogged.wellFormed hlogged.short
    · intro record hrec
      exact (hlogged.below record hrec).trans hcalled.ge
    · exact h.values

end

/-! ## Whole snapshots -/

lemma find_removeSegments (gs : List Nat) (disk : Disk) (g : Nat) :
    (disk.writes (gs.map Write.removeSegment)).segments.find g =
      if g ∈ gs then none else disk.segments.find g := by
  induction gs generalizing disk with
  | nil => simp [Disk.writes]
  | cons g' gs ih =>
    have htail := ih ((Write.removeSegment g').apply disk)
    simp only [Disk.writes, map_cons, foldl_cons] at htail ⊢
    rw [htail]
    by_cases hg : g = g'
    · simp [Write.apply, find_delete, hg]
    · simp [Write.apply, find_delete, hg]

lemma manifest_removeSegments (gs : List Nat) (disk : Disk) :
    (disk.writes (gs.map Write.removeSegment)).manifest = disk.manifest := by
  induction gs generalizing disk with
  | nil => rfl
  | cons g gs ih => exact ih _

lemma segments_rotationWrites (fmt : Format) (db : DB) {disk disk' : Disk}
    (h : disk'.segments = disk.segments) :
    (disk'.writes (rotationWrites fmt db disk)).manifest =
        some (walManifest fmt db (db.walGeneration + 1)) ∧
      ∀ g, (disk'.writes (rotationWrites fmt db disk)).segments.find g =
        if g = db.walGeneration + 1 then some [] else none := by
  unfold rotationWrites
  rw [writes_append]
  refine ⟨manifest_removeSegments _ _, ?_⟩
  intro g
  rw [find_removeSegments]
  simp only [mem_filter, decide_eq_true_eq, Disk.writes, foldl_cons, foldl_nil, Write.apply,
    find_put, h]
  by_cases hg : g = db.walGeneration + 1
  · simp [hg]
  cases hfind : disk.segments.find g with
  | none => simp [hg]
  | some data =>
    have hmem := mem_sortedKeys.2 ⟨data, hfind⟩
    simp [hg, hmem]

section

variable (h : Durable sha fmt nameSpace w tip base records markers)

include h

lemma Durable.rotate (hcalled : w.db.lastHeight = tip.height) : Durable sha fmt nameSpace
      ⟨{ w.db with walGeneration := w.db.walGeneration + 1 },
        w.disk.writes (snapshotWrites sha fmt w.db w.disk w.db.lastHeight)⟩ tip (Base.of w.db) []
      markers := by
  obtain ⟨backup, hhiding⟩ := writes_hidingWrites w.disk
  set disk := w.disk.writes (snapshotWrites sha fmt w.db w.disk w.db.lastHeight) with hwritten
  have hdisk : disk = Disk.writes { w.disk.renewed fmt w.db none with
        metadata := some (fmt.metadata.encode (State.snapshotMetadata sha w.db w.db.lastHeight)) }
        (rotationWrites fmt w.db w.disk) := by
    rw [hwritten, snapshotWrites_eq, writes_append, hhiding]
    rfl
  have hrenewed := h.renewed none (prefix_refl (rotationWrites fmt w.db w.disk))
  rw [← hdisk] at hrenewed
  have hsegs : disk.manifest = some (walManifest fmt w.db (w.db.walGeneration + 1)) ∧
      ∀ g, disk.segments.find g = if g = w.db.walGeneration + 1 then some [] else none := by
    rw [hdisk]
    exact segments_rotationWrites fmt w.db rfl
  exact
    { h with
      snapshot := .inr ⟨hrenewed.snapshot, hrenewed.metadata⟩
      files :=
        { generation_pos := Nat.succ_pos _
          legacy := hrenewed.legacy
          manifest := .inr (hsegs.1.trans (congrArg some (walManifest_congr h.nameSpace_eq _)))
          segments := fun g hg => (hsegs.2 g).trans (if_neg hg)
          log := by
            rw [hsegs.2, if_pos rfl]
            rfl
          markers_file := by
            rw [hrenewed.markers_eq]
            exact h.files.markers_file
          markers_all := h.files.markers_all }
      logged := ⟨_, logged_nil h.values hcalled (h.tip_hash hcalled)⟩ }

lemma Durable.event {event : Event} (hevent : Admissible sha fmt nameSpace w tip event) :
    ∃ base' records' markers', Durable sha fmt nameSpace (w.event sha fmt nameSpace event)
      (tip.event sha fmt nameSpace event) base' records' markers' := by
  cases event with
  | commit block updates marker => exact ⟨_, _, _, h.commit hevent⟩
  | snapshot cadence =>
    simp only [World.event, snapshotIfDue]
    split
    · exact ⟨_, _, _, h.rotate hevent⟩
    · exact ⟨_, _, _, h⟩
  | restart => exact ⟨_, _, _, h.restart⟩

lemma Durable.run {events : List Event} {event : Event}
    (hproper : Proper sha fmt nameSpace w tip (events ++ [event])) :
    ∃ base' records' markers',
      Durable sha fmt nameSpace (events.foldl (World.event sha fmt nameSpace) w)
        (events.foldl (Tip.event sha fmt nameSpace) tip) base' records' markers' ∧
      Admissible sha fmt nameSpace (events.foldl (World.event sha fmt nameSpace) w)
        (events.foldl (Tip.event sha fmt nameSpace) tip) event := by
  induction events generalizing w tip base records markers with
  | nil => exact ⟨base, records, markers, h, hproper.1⟩
  | cons first events ih =>
    obtain ⟨base', records', markers', hnext⟩ := h.event hproper.1
    exact ih hnext hproper.2

end

/-! ## Recovery -/

/-- What `SnapshotIfDue` writes. -/
def writesIfDue (sha : Sha) (fmt : Format) (w : World) (cadence : Int) : List Write :=
  if snapshotDue w.db.lastHeight cadence then snapshotWrites sha fmt w.db w.disk w.db.lastHeight
    else []

/-- After a proper run, a `Load` of the directory that a crash inside `SnapshotIfDue` leaves returns
the last committed values exactly if

* the old snapshot was empty, when the crash leaves no snapshot, and
* the old snapshot has the values of the new one, when it leaves the new snapshot beside the old
metadata. -/
theorem rotation_iff (hsha : sha.CollisionFree) (fmt : Format) (nameSpace : String)
    (events : List Event) (cadence : Int)
    (h : Proper sha fmt nameSpace ⟨DB.new nameSpace, {}⟩ {} (events ++ [.snapshot cadence]))
    (stop : Nat) :
    Recovered sha fmt nameSpace ((World.after sha fmt nameSpace events).disk.writes
          ((writesIfDue sha fmt (World.after sha fmt nameSpace events) cadence).take stop))
        (Tip.after sha fmt nameSpace events) ↔
      (Hidden ((writesIfDue sha fmt (World.after sha fmt nameSpace events) cadence).take stop) →
        Same (snapshotValues fmt (World.after sha fmt nameSpace events).disk) ∅) ∧
      (Mixed ((writesIfDue sha fmt (World.after sha fmt nameSpace events) cadence).take stop) →
        Same (World.after sha fmt nameSpace events).db.values
          (snapshotValues fmt (World.after sha fmt nameSpace events).disk)) := by
  obtain ⟨base, records, markers, hdurable, hcalled⟩ := durable_new.run h
  apply hdurable.crash_iff hsha hcalled
  apply (List.take_prefix _ _).trans
  unfold writesIfDue
  split
  · exact prefix_refl _
  · exact nil_prefix

/-- One block, which sets `x`. -/
def firstCommit : Event :=
  .commit { height := 1, hash := "a", parent := "" } firstUpdates (Storage.markerOf 1 "a")

/-- The first snapshot stops before its metadata is there: the log, which starts at no block, is
replayed on the values of the first one. -/
theorem rotation_mixed : ¬ Recovered plainSha digitFormat "s"
      ((World.after plainSha digitFormat "s" [firstCommit]).disk.writes
        ((writesIfDue plainSha digitFormat (World.after plainSha digitFormat "s" [firstCommit])
          1).take 3)) (Tip.after plainSha digitFormat "s" [firstCommit]) := by
  rintro ⟨db, hload, -⟩
  have hfails : (load plainSha digitFormat (DB.new "s")
      ((World.after plainSha digitFormat "s" [firstCommit]).disk.writes
        ((writesIfDue plainSha digitFormat (World.after plainSha digitFormat "s" [firstCommit])
          1).take 3))).2 ≠ none := by decide +kernel
  rw [hload] at hfails
  exact hfails rfl

lemma extending_first : Extending plainSha digitFormat "s" ⟨new "s", {}⟩ {}
    { height := 1, hash := "a", parent := "" } firstUpdates (Storage.markerOf 1 "a") where
  height := rfl
  parent := .inl rfl
  applies := ⟨_, rfl⟩
  present := by decide +kernel
  fresh := not_mem_nil
  short := by decide +kernel
  marker_hash := rfl
  marker_valid := by decide
  marker_short := by decide +kernel

theorem rotation_renewed : Recovered plainSha digitFormat "s"
      ((World.after plainSha digitFormat "s" [firstCommit]).disk.writes
        ((writesIfDue plainSha digitFormat (World.after plainSha digitFormat "s" [firstCommit])
          1).take 6)) (Tip.after plainSha digitFormat "s" [firstCommit]) := by
  have hproper : Proper plainSha digitFormat "s" ⟨DB.new "s", {}⟩ {}
      ([firstCommit] ++ [.snapshot 1]) := ⟨extending_first, rfl, trivial⟩
  have hpayload : ∃ payload, .publishMetadata payload ∈ (writesIfDue plainSha digitFormat
      (World.after plainSha digitFormat "s" [firstCommit]) 1).take 6 :=
    ⟨digitFormat.metadata.encode (snapshotMetadata plainSha
      (World.after plainSha digitFormat "s" [firstCommit]).db 1), by decide +kernel⟩
  have hbackup : .backupSnapshot ∉ (writesIfDue plainSha digitFormat
      (World.after plainSha digitFormat "s" [firstCommit]) 1).take 6 := by decide +kernel
  refine (rotation_iff plainSha_collisionFree digitFormat "s" [firstCommit] 1 hproper 6).2 ⟨?_, ?_⟩
  · exact fun hhidden => absurd hhidden.1 hbackup
  · intro hmixed
    obtain ⟨payload, hmem⟩ := hpayload
    exact absurd hmem (hmixed.2 payload)

/-! ## Records that the scanner cannot read -/

lemma Files.load_tooLong {record : WalRecord}
    (h : Files fmt nameSpace disk generation records markers)
    (hfiles : SnapshotFiles sha fmt nameSpace disk generation base) (hmem : record ∈ records)
    (hlong : scanLimit ≤ (fmt.record.encode record).length) (hmarkers : markers ≠ []) :
    (State.load sha fmt (new nameSpace) disk).2 = some (.walTooLong generation) := by
  obtain ⟨info, values, hinfo, -, -, hsnap, -, -⟩ := hfiles.read
  obtain ⟨manifest, hman, -⟩ := h.loadWALManifest
  have hlog := h.log
  cases hdata : disk.segments.find generation with
  | none =>
    rw [hdata] at hlog
    rw [(file_eq_nil _).1 hlog.symm] at hmem
    cases hmem
  | some data =>
    rw [hdata, Option.getD_some] at hlog
    have hscan : (scan scanLimit data).2 = true := by
      rw [hlog, scan, rows_file]
      exact any_eq_true.2 ⟨_, mem_map_of_mem hmem, decide_eq_true hlong⟩
    simp [State.load, hinfo, hman, hsnap, replayWAL, h.committed, hmarkers,
      walSegments_eq h.legacy h.segments, hdata, replaySegment, hscan, bind, Except.bind]

section

variable (h : Durable sha fmt nameSpace w tip base records markers)

include h

lemma Durable.recovered : Recovered sha fmt nameSpace w.disk tip := by
  obtain ⟨r, hlogged⟩ := h.logged
  obtain ⟨info, values, hinfo, hht, hhash, hsnap, hsame, -⟩ := h.snapshot.read
  obtain ⟨manifest, s, -, hload, hs⟩ := h.files.load hlogged hinfo hht hhash hsnap hsame
  exact ⟨_, hload, hs⟩

variable (hval : marker.row.valid = true) (hshort : (fmt.markers.encode marker).length < scanLimit)

include hval hshort

lemma Durable.not_recovered
    (hlong :
      scanLimit ≤ (fmt.record.encode (commitRecord sha fmt nameSpace w.db block updates)).length) :
    ¬ Recovered sha fmt nameSpace (w.event sha fmt nameSpace (.commit block updates marker)).disk
      (tip.event sha fmt nameSpace (.commit block updates marker)) := by
  rintro ⟨db, hload, -⟩
  obtain ⟨hns, hgen⟩ := fields_applyDeterministicBatch sha updates w.db
  rcases h.files.commit (block.info (w.db.root sha)
      ((w.db.applyDeterministicBatch sha updates).1.root sha)) updates
      (hns.trans h.nameSpace_eq) hgen hval hshort with ⟨-, hsnap, hfiles⟩
  have hfails := hfiles.load_tooLong (hsnap h.snapshot) (mem_append_right _ (mem_singleton_self _))
    hlong (by simp)
  exact absurd ((congrArg Prod.snd hload).symm.trans hfails) (by simp)

/-- Between the events of a proper run: a block that extends the chain is replayed exactly if the
line of its record fits into the buffer of the scanner. -/
theorem commit_recovered_iff
    (hext : (fmt.record.encode (commitRecord sha fmt nameSpace w.db block updates)).length <
      scanLimit → Extending sha fmt nameSpace w tip block updates marker) :
    Recovered sha fmt nameSpace (w.event sha fmt nameSpace (.commit block updates marker)).disk
        (tip.event sha fmt nameSpace (.commit block updates marker)) ↔
      (fmt.record.encode (commitRecord sha fmt nameSpace w.db block updates)).length < scanLimit :=
  ⟨fun hrec => not_le.1 fun hlong => h.not_recovered hval hshort hlong hrec,
    fun hlt => (h.commit (hext hlt)).recovered⟩

end

theorem commit_recovered_first : Recovered plainSha digitFormat "s"
      (World.event plainSha digitFormat "s" ⟨DB.new "s", {}⟩ firstCommit).disk
      (Tip.event plainSha digitFormat "s" {} firstCommit) :=
  (commit_recovered_iff durable_new (by decide) (by decide +kernel) fun _ => extending_first).2
    (by decide +kernel)

lemma length_value_le {r : WalRecord} {kv : StateKV} (h : r.stateUpdates = [kv]) :
    (kv.value.toList.flatMap Code.char.put).length ≤ (digitFormat.record.encode r).length := by
  simp [digitFormat, LineCodec.ofCode, ofCodeEncode, walRecordCode, stateKVCode, Code.string,
    Code.imap, Code.pair, Code.list, h]
  omega

/-- A value of 64 KiB. -/
def longCommit : Event :=
  .commit { height := 1, hash := "a", parent := "" }
    [{ key := "x", value := String.ofList (replicate scanLimit 'a') }] (Storage.markerOf 1 "a")

theorem long_record_lost : ¬ Recovered plainSha digitFormat "s"
      (World.event plainSha digitFormat "s" ⟨DB.new "s", {}⟩ longCommit).disk
      (Tip.event plainSha digitFormat "s" {} longCommit) := by
  refine durable_new.not_recovered (by decide) (by decide +kernel)
    (le_trans ?_ (length_value_le rfl))
  simp only [String.toList_ofList, length_flatMap, map_replicate, sum_replicate]
  exact Nat.le_mul_of_pos_right _ (by decide)

end ChainLab.State
