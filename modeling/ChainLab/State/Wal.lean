import ChainLab.Storage.Marker
import ChainLab.State.Database

/-!
# The write-ahead log of the state

The files of a state directory, and the parts of `state/db.go` that write and read them:
`PersistDelta` appends a record of a block's changes, `SnapshotIfDue` replaces the snapshot and
starts a new log segment, and `Load` reads the snapshot and replays the records of the committed
blocks.

`SnapshotIfDue` is the list of its writes, so that an execution can stop between any two of them.
JSON is a parameter; a temporary file is not read by anything, so it has no content here.
-/

namespace ChainLab.State

open Journal
open Storage (MarkerFormat MarkerError committedBlockHashes scanLimit)

/-! ## Records -/

structure DeltaMetadata where
  blockHeight : Nat
  blockHash : String
  parentHash : String
  deltaID : String := ""
  stateRootBefore : String
  stateRootAfter : String
deriving DecidableEq, Repr

structure WalRecord where
  version : String
  nameSpace : String
  blockHeight : Nat
  blockHash : String
  parentHash : String
  deltaID : String
  stateUpdates : List StateKV
  stateRootBefore : String
  stateRootAfter : String
  stateRootVersion : String
  checksum : String
deriving DecidableEq, Repr

structure SnapshotMetadata where
  version : String := ""
  nameSpace : String := ""
  includedHeight : Nat := 0
  includedBlockHash : String := ""
  stateRoot : String := ""
  stateRootVersion : String := ""
  walGeneration : Nat := 0
deriving DecidableEq, Repr

structure WALManifest where
  version : String := ""
  nameSpace : String := ""
  activeGeneration : Nat := 0
deriving DecidableEq, Repr

structure FileCodec (α : Type) where
  encode : α → Bytes
  decode : Bytes → Option α
  decode_encode : ∀ a, decode (encode a) = some a

/-- The formats of the files.  A snapshot is an object, read as the list of its members. -/
structure Format where
  snapshot : FileCodec (List (String × String))
  metadata : FileCodec SnapshotMetadata
  manifest : FileCodec WALManifest
  record : LineCodec WalRecord
  markers : MarkerFormat
  /-- The SHA-256 of a record. -/
  checksum : WalRecord → String

/-- The files of a state directory; `segments` are the `state_delta.<generation>.wal` and `legacy`
is `state_delta.wal`. -/
structure Disk where
  snapshot : Option Bytes := none
  backup : Option Bytes := none
  metadata : Option Bytes := none
  manifest : Option Bytes := none
  legacy : Option Bytes := none
  segments : GoMap Nat Bytes := ∅
  markers : Option Bytes := none

def recordVersion : String := "state_delta_wal_v1"

def metadataVersion : String := "state_snapshot_metadata_v1"

def manifestVersion : String := "state_wal_manifest_v1"

def legacyCommitmentVersion : String := "mbe_flat_sorted_sha256_v1"

def commitmentVersion : String := "mbe_state_merkle_treap_v2"

section

variable (sha : Sha) (fmt : Format)

def legacyRoot (snapshot : Snapshot) : String :=
  sha.text (String.join ((sortedEntries snapshot).map fun e => e.1 ++ "=" ++ e.2 ++ "\n"))

/-- `none` for a version that is not supported. -/
def rootForVersion (snapshot : Snapshot) (version : String) : Option String :=
  if version = "" ∨ version = legacyCommitmentVersion then some (legacyRoot sha snapshot)
  else if version = commitmentVersion then some (snapshotRoot sha snapshot)
  else none

def walChecksum (record : WalRecord) : String :=
  fmt.checksum { record with checksum := "" }

/-! ## Appending -/

/-- `walPath`, as the generation of the segment. -/
def walSegment (generation : Nat) : Nat :=
  if generation = 0 then 1 else generation

inductive LoadError where
  | metadataDecode
  | metadataInvalid (version nameSpace : String)
  | manifestDecode
  | manifestInvalid (version nameSpace : String)
  | snapshotDecode
  | snapshotRootVersion (version : String)
  | snapshotRoot (got want : String)
  | markers (err : MarkerError)
  | walTooLong (generation : Nat)
  | walDecode (generation line : Nat)
  | walInvalid (generation line : Nat) (version nameSpace : String)
  | walChecksum (generation line : Nat)
  | heightGap (got after : Nat)
  | parentMismatch (height : Nat) (got want : String)
  | rootVersion (version : String) (height : Nat)
  | rootBefore (height : Nat) (got want : String)
  | apply (height : Nat) (err : CASMismatchError)
  | rootAfter (height : Nat) (got want : String)
deriving DecidableEq, Repr

def loadWALManifest (db : DB) (disk : Disk) : Except LoadError WALManifest :=
  match disk.manifest with
  | none => .ok {}
  | some payload =>
    match fmt.manifest.decode payload with
    | none => .error .manifestDecode
    | some manifest =>
      if manifest.version = manifestVersion ∧ manifest.nameSpace = db.nameSpace then .ok manifest
      else .error (.manifestInvalid manifest.version manifest.nameSpace)

def walManifest (db : DB) (generation : Nat) : Bytes :=
  fmt.manifest.encode ⟨manifestVersion, db.nameSpace, generation⟩

/-- The generation that `appendWAL` writes to. -/
def activeGeneration (db : DB) (disk : Disk) : Nat :=
  if db.walGeneration = 0 then
    match loadWALManifest fmt db disk with
    | .ok manifest => if 0 < manifest.activeGeneration then manifest.activeGeneration else 1
    | .error _ => 1
  else db.walGeneration

/-- `appendWAL`, up to the bytes of the record: the manifest is there before them. -/
def openWAL (db : DB) (disk : Disk) : DB × Disk :=
  let db := { db with walGeneration := activeGeneration fmt db disk }
  match disk.manifest with
  | none => (db, { disk with manifest := some (walManifest fmt db db.walGeneration) })
  | some _ => (db, disk)

def Disk.append (disk : Disk) (generation : Nat) (bytes : Bytes) : Disk :=
  { disk with segments :=
    disk.segments.put generation ((disk.segments.find generation).getD [] ++ bytes) }

/-- The record of `PersistDelta`. -/
def deltaRecord (db : DB) (info : DeltaMetadata) (updates : List StateKV) : WalRecord :=
  let deltaID := if info.deltaID = "" then
    db.nameSpace ++ ":" ++ Text.formatUint info.blockHeight ++ ":" ++ info.blockHash
      else info.deltaID
  let record : WalRecord :=
    ⟨recordVersion, db.nameSpace, info.blockHeight, info.blockHash, info.parentHash, deltaID,
      updates, info.stateRootBefore, info.stateRootAfter, commitmentVersion, ""⟩
  { record with checksum := walChecksum fmt record }

/-- `PersistDelta`, of which the last append got `written` of its bytes to the disk. -/
def persistBytes (db : DB) (disk : Disk) (info : DeltaMetadata) (updates : List StateKV)
    (written : Nat) : DB × Disk :=
  let opened := openWAL fmt db disk
  (opened.1, opened.2.append (walSegment opened.1.walGeneration)
    ((fmt.record.line (deltaRecord fmt opened.1 info updates)).take written))

/-- `PersistDelta`. -/
def persistDelta (db : DB) (disk : Disk) (info : DeltaMetadata) (updates : List StateKV) :
    DB × Disk :=
  let record := deltaRecord fmt (openWAL fmt db disk).1 info updates
  let next := persistBytes fmt db disk info updates (fmt.record.line record).length
  ({ next.1 with lastHeight := info.blockHeight, lastBlockHash := info.blockHash }, next.2)

/-! ## Loading -/

structure Replay where
  values : Snapshot
  applied : List String := []
  lastHeight : Nat
  lastHash : String

def loadSnapshotMetadata (db : DB) (disk : Disk) : Except LoadError SnapshotMetadata :=
  match disk.metadata with
  | none => .ok {}
  | some payload =>
    match fmt.metadata.decode payload with
    | none => .error .metadataDecode
    | some info =>
      if info.version = metadataVersion ∧ info.nameSpace = db.nameSpace then .ok info
      else .error (.metadataInvalid info.version info.nameSpace)

/-- The snapshot file, checked against the metadata. -/
def loadSnapshot (disk : Disk) (info : SnapshotMetadata) : Except LoadError Snapshot :=
  match disk.snapshot with
  | none => .ok ∅
  | some payload =>
    match fmt.snapshot.decode payload with
    | none => .error .snapshotDecode
    | some members =>
      let values : Snapshot := putAll ∅ members
      if info.version = "" then .ok values
      else
        let version := if info.stateRootVersion = "" then legacyCommitmentVersion
          else info.stateRootVersion
        match rootForVersion sha values version with
        | none => .error (.snapshotRootVersion version)
        | some got =>
          if info.stateRoot ≠ "" ∧ got ≠ info.stateRoot then
            .error (.snapshotRoot got info.stateRoot)
          else .ok values

/-- The record passes the checks and is applied to the values. -/
def applyRecord (nameSpace : String) (r : Replay) (record : WalRecord) : Except LoadError Replay :=
  if 0 < r.lastHeight ∧ record.blockHeight ≠ r.lastHeight + 1 then
    .error (.heightGap record.blockHeight r.lastHeight)
  else if r.lastHash ≠ "" ∧ record.parentHash ≠ r.lastHash then
    .error (.parentMismatch record.blockHeight record.parentHash r.lastHash)
  else
    let version := if record.stateRootVersion = "" then legacyCommitmentVersion
      else record.stateRootVersion
    match rootForVersion sha r.values version with
    | none => .error (.rootVersion version record.blockHeight)
    | some before =>
      if record.stateRootBefore ≠ "" ∧ before ≠ record.stateRootBefore then
        .error (.rootBefore record.blockHeight before record.stateRootBefore)
      else
        match applyStateKVs sha nameSpace r.values record.stateUpdates with
        | .error err => .error (.apply record.blockHeight err)
        | .ok values =>
          let after := (rootForVersion sha values version).getD ""
          if record.stateRootAfter ≠ "" ∧ after ≠ record.stateRootAfter then
            .error (.rootAfter record.blockHeight after record.stateRootAfter)
          else
            .ok ⟨values, record.deltaID :: r.applied, record.blockHeight, record.blockHash⟩

/-- A decoded record of the loop of `replayWAL`. -/
def replayRecord (nameSpace : String) (includedHeight : Nat) (committed : Finset String)
    (generation line : Nat) (r : Replay) (record : WalRecord) : Except LoadError Replay :=
  if ¬ (record.version = recordVersion ∧ record.nameSpace = nameSpace) then
    .error (.walInvalid generation line record.version record.nameSpace)
  else if record.checksum ≠ walChecksum fmt record then .error (.walChecksum generation line)
  else if record.blockHeight ≤ includedHeight then .ok r
  else if record.blockHash ∉ committed then .ok r
  else if record.deltaID ∈ r.applied then .ok r
  else applyRecord sha nameSpace r record

/-- The lines of a segment from the one of a number on; the last one may be torn. -/
def replayLines (nameSpace : String) (includedHeight : Nat) (committed : Finset String)
    (generation : Nat) :
    Nat → List Bytes → Replay → Except LoadError Replay
  | _, [], r => .ok r
  | line, row :: rows, r =>
    match fmt.record.decode row with
    | none => if rows = [] then .ok r else .error (.walDecode generation line)
    | some record =>
      match replayRecord sha fmt nameSpace includedHeight committed generation line r record with
      | .error err => .error err
      | .ok r => replayLines nameSpace includedHeight committed generation (line + 1) rows r

/-- The lines of a segment as `readWALLines` returns them. -/
def replaySegment (nameSpace : String) (includedHeight : Nat) (committed : Finset String)
    (r : Replay) (segment : Nat × Bytes) : Except LoadError Replay :=
  if (scan scanLimit segment.2).2 then .error (.walTooLong segment.1)
  else
    replayLines sha fmt nameSpace includedHeight committed segment.1 1
      (scan scanLimit segment.2).1 r

def walSegments (disk : Disk) : List (Nat × Bytes) :=
  (disk.legacy.toList.map fun data => (0, data)) ++ disk.segments.sortedKeys.map fun generation =>
      (generation, (disk.segments.find generation).getD [])

def replayWAL (nameSpace : String) (disk : Disk) (values : Snapshot) (info : SnapshotMetadata) :
    Except LoadError Snapshot :=
  match committedBlockHashes fmt.markers disk.markers with
  | .error err => .error (.markers err)
  | .ok committed =>
    if committed = ∅ then .ok values
    else
      match (walSegments disk).foldlM
        (replaySegment sha fmt nameSpace info.includedHeight committed)
          ⟨values, [], info.includedHeight, info.includedBlockHash⟩ with
      | .error err => .error err
      | .ok r => .ok r.values

/-- The generation after the snapshot and the manifest have been read. -/
def loadedGeneration (db : DB) (disk : Disk) (info : SnapshotMetadata) (manifest : WALManifest) :
    Nat :=
  if 0 < manifest.activeGeneration then manifest.activeGeneration
  else if disk.snapshot.isSome ∧ info.version ≠ "" then info.walGeneration
  else db.walGeneration

/-- `Load`.  When it fails the values stay. -/
def load (db : DB) (disk : Disk) : DB × Option LoadError :=
  match loadSnapshotMetadata fmt db disk with
  | .error err => (db, some err)
  | .ok info =>
    match loadWALManifest fmt db disk with
    | .error err => (db, some err)
    | .ok manifest =>
      match loadSnapshot sha fmt disk info with
      | .error err => (db, some err)
      | .ok values =>
        let db := { db with walGeneration := loadedGeneration db disk info manifest }
        match replayWAL sha fmt db.nameSpace disk values info with
        | .error err => (db, some err)
        | .ok values => ({ db with values := values, commitment := treeOf sha values }, none)

/-! ## Snapshots -/

inductive Write where
  | temporary
  | removeBackup
  | backupSnapshot
  | publishSnapshot (payload : Bytes)
  | publishMetadata (payload : Bytes)
  | publishManifest (payload : Bytes)
  | truncateSegment (generation : Nat)
  | removeSegment (generation : Nat)
deriving DecidableEq, Repr

def Write.apply (disk : Disk) : Write → Disk
  | .temporary => disk
  | .removeBackup => { disk with backup := none }
  | .backupSnapshot => { disk with backup := disk.snapshot, snapshot := none }
  | .publishSnapshot payload => { disk with snapshot := some payload }
  | .publishMetadata payload => { disk with metadata := some payload }
  | .publishManifest payload => { disk with manifest := some payload }
  | .truncateSegment generation => { disk with segments := disk.segments.put generation [] }
  | .removeSegment generation => { disk with segments := disk.segments.delete generation }

/-- The writes of `writeSnapshot`. -/
def writeSnapshot (db : DB) (disk : Disk) : List Write :=
  [.temporary, .removeBackup] ++ (if disk.snapshot.isSome then [.backupSnapshot] else []) ++
    [.publishSnapshot (fmt.snapshot.encode (sortedEntries db.values)), .removeBackup]

def snapshotMetadata (db : DB) (blockHeight : Nat) : SnapshotMetadata :=
  ⟨metadataVersion, db.nameSpace, blockHeight, db.lastBlockHash, db.root sha, commitmentVersion,
    db.walGeneration + 1⟩

/-- The writes of `SnapshotIfDue` when a snapshot is due. -/
def snapshotWrites (db : DB) (disk : Disk) (blockHeight : Nat) : List Write :=
  let generation := walSegment (db.walGeneration + 1)
  writeSnapshot fmt db disk ++
    [.temporary, .publishMetadata (fmt.metadata.encode (snapshotMetadata sha db blockHeight)),
      .temporary, .publishManifest (walManifest fmt db (db.walGeneration + 1)),
      .truncateSegment generation] ++
    (disk.segments.sortedKeys.filter fun g => g ≠ generation).map Write.removeSegment

def snapshotDue (blockHeight : Nat) (cadence : Int) : Bool :=
  0 < cadence && blockHeight ≠ 0 && blockHeight % cadence.toNat = 0

/-- `SnapshotIfDue`. -/
def snapshotIfDue (db : DB) (disk : Disk) (blockHeight : Nat) (cadence : Int) : DB × Disk :=
  if snapshotDue blockHeight cadence then
    ({ db with walGeneration := db.walGeneration + 1 },
      (snapshotWrites sha fmt db disk blockHeight).foldl Write.apply disk)
  else (db, disk)

end

/-! ## Formats of digits -/

def FileCodec.ofCode {α : Type} (c : Code α) : FileCodec α where
  encode a := (LineCodec.ofCode c).encode a
  decode := (LineCodec.ofCode c).decode
  decode_encode := (LineCodec.ofCode c).decode_encode

def stateKVCode : Code StateKV :=
  (Code.string.list.pair (Code.string.list.pair (Code.int.list.pair
    (Code.bool.list.pair Code.nat.list)))).imap
    (fun kv => ([kv.key, kv.value, kv.updateSemantics, kv.baseValue, kv.baseValueDigest,
      kv.applyOrigin, kv.deltaKind, kv.deltaID], kv.txIDs, [kv.delta, kv.initialValue],
      [kv.hasInitialValue, kv.orderingNoop],
      [kv.blockHeight, kv.routingOrdinal, kv.previousVersion, kv.producedVersion]))
    (fun p =>
      { key := p.1.getD 0 "", value := p.1.getD 1 "", txIDs := p.2.1
        updateSemantics := p.1.getD 2 "", delta := p.2.2.1.getD 0 0
        baseValue := p.1.getD 3 "", baseValueDigest := p.1.getD 4 ""
        applyOrigin := p.1.getD 5 "", deltaKind := p.1.getD 6 ""
        hasInitialValue := p.2.2.2.1.getD 0 false, initialValue := p.2.2.1.getD 1 0
        deltaID := p.1.getD 7 "", blockHeight := p.2.2.2.2.getD 0 0
        routingOrdinal := p.2.2.2.2.getD 1 0, previousVersion := p.2.2.2.2.getD 2 0
        producedVersion := p.2.2.2.2.getD 3 0, orderingNoop := p.2.2.2.1.getD 1 false })
    (fun _ => rfl)

def walRecordCode : Code WalRecord :=
  (Code.string.list.pair (Code.nat.pair stateKVCode.list)).imap
    (fun r => ([r.version, r.nameSpace, r.blockHash, r.parentHash, r.deltaID, r.stateRootBefore,
      r.stateRootAfter, r.stateRootVersion, r.checksum], r.blockHeight, r.stateUpdates))
    (fun p => ⟨p.1.getD 0 "", p.1.getD 1 "", p.2.1, p.1.getD 2 "", p.1.getD 3 "", p.1.getD 4 "",
      p.2.2, p.1.getD 5 "", p.1.getD 6 "", p.1.getD 7 "", p.1.getD 8 ""⟩)
    (fun _ => rfl)

def snapshotMetadataCode : Code SnapshotMetadata :=
  (Code.string.list.pair (Code.nat.pair Code.nat)).imap
    (fun m => ([m.version, m.nameSpace, m.includedBlockHash, m.stateRoot, m.stateRootVersion],
      m.includedHeight, m.walGeneration))
    (fun p => ⟨p.1.getD 0 "", p.1.getD 1 "", p.2.1, p.1.getD 2 "", p.1.getD 3 "", p.1.getD 4 "",
      p.2.2⟩)
    (fun _ => rfl)

def walManifestCode : Code WALManifest :=
  (Code.string.pair (Code.string.pair Code.nat)).imap
    (fun m => (m.version, m.nameSpace, m.activeGeneration)) (fun p => ⟨p.1, p.2.1, p.2.2⟩)
    (fun _ => rfl)

/-- All files as digits; the checksum of a record is its block hash. -/
def digitFormat : Format where
  snapshot := FileCodec.ofCode (Code.string.pair Code.string).list
  metadata := FileCodec.ofCode snapshotMetadataCode
  manifest := FileCodec.ofCode walManifestCode
  record := LineCodec.ofCode walRecordCode
  markers := Storage.digitMarkers
  checksum := WalRecord.blockHash

end ChainLab.State
