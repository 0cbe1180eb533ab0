import ChainLab.Data.GoMap
import ChainLab.Data.RawJson
import ChainLab.Storage.Marker

/-!
# The block store

The parts of `storage.BlockStore` that write and read committed blocks.  `DurableCommit` appends to
four files, receipts, transaction index, blocks and markers, and syncs each of them before it starts
with the next one; `Rollback` cuts the files back to the sizes of a checkpoint.  There are three
readers: `ReadCommitted` decodes all blocks, `HasTransaction` scans the transaction index, and
`ReadCommittedRange` reads single blocks at the offsets of an index that it keeps in memory.

JSON and gzip are parameters.  A block has the fields that the store looks at; the others are its
`body`. The payload of its evidence is a raw message, so its row is read back as it was only if
`json.Marshal` leaves the payload alone.
-/

namespace ChainLab.Storage

open Journal

/-! ## Blocks -/

structure ProposalEvidence where
  algorithmID : String
  payloadDigest : String
  payload : Bytes
deriving DecidableEq, Repr

structure DurableBlock (β : Type) where
  height : Nat
  blockHash : String
  stateCommit : Bool := false
  evidence : Option ProposalEvidence := none
  body : β
deriving DecidableEq, Repr

structure Receipt where
  txID : String
  blockHash : String
  height : Nat
  success : Bool
  error : String
  executionCost : Int
  stateKeys : List String
  stateRootAfterTx : String
deriving DecidableEq, Repr

/-- The parts of `execution.Result` that are stored. -/
structure Execution where
  receipts : List Receipt
  receiptRoot : String
  stateRootAfter : String
deriving DecidableEq, Repr

structure TxIndexRecord where
  txID : String
  blockHash : String
  height : Nat
  receiptOK : Bool
  receiptRoot : String
deriving DecidableEq, Repr

/-! ## Compression of the evidence -/

structure CompressedPayload where
  codec : String
  encoding : String
  uncompressedBytes : Int
  uncompressedSHA256 : String
  payloadGzipBase64 : String
deriving DecidableEq, Repr

/-- JSON of raw messages and of the wrapper, gzip with base64, and SHA-256. -/
structure Compression where
  valid : Bytes → Bool
  encode : CompressedPayload → Bytes
  decode : Bytes → Option CompressedPayload
  decode_encode : ∀ wrapper, decode (encode wrapper) = some wrapper
  encode_ne_nil : ∀ wrapper, encode wrapper ≠ []
  marshal_encode : ∀ wrapper, RawJson.marshal valid (encode wrapper) = some (encode wrapper)
  gzip : Bytes → String
  gunzip : String → Option Bytes
  gunzip_gzip : ∀ data, gunzip (gzip data) = some data
  sha256 : Bytes → String

def durableProposalPayloadCodec : String := "mbe_v5_durable_proposal_gzip_v1"

def durableProposalEncoding : String := "gzip+base64+json"

def durableProposalCompressionThreshold : Nat := 16 * 1024

def durableProposalMaximumSemanticBytes : Nat := 512 * 1024 * 1024

inductive RestoreError where
  | codec (codec : String)
  | encoding (encoding : String)
  | size (bytes : Int)
  | compressed
  | sizeMismatch (got want : Int)
  | digestMismatch
  | commitmentMismatch
deriving DecidableEq, Repr

section Compression

variable {β : Type} (z : Compression)

def Compression.wrap (payload : Bytes) : Bytes :=
  z.encode ⟨durableProposalPayloadCodec, durableProposalEncoding, payload.length, z.sha256 payload,
    z.gzip payload⟩

/-- `none` when the evidence is too large. -/
def blockForDurableStorage (b : DurableBlock β) : Option (DurableBlock β) :=
  match b.evidence with
  | none => some b
  | some evidence =>
    if evidence.payload.length < durableProposalCompressionThreshold then some b
    else if durableProposalMaximumSemanticBytes < evidence.payload.length then none
    else if evidence.payload.length ≤ (z.wrap evidence.payload).length then some b
    else some { b with evidence := some { evidence with payload := z.wrap evidence.payload } }

/-- The block as its JSON line has it, none if its evidence is not JSON; an empty payload is left
out. -/
def Compression.row (b : DurableBlock β) : Option (DurableBlock β) :=
  match b.evidence with
  | none => some b
  | some evidence =>
    if evidence.payload = [] then some b
    else (RawJson.marshal z.valid evidence.payload).map fun payload =>
      { b with evidence := some { evidence with payload := payload } }

/-- A payload that is not a wrapper stays as it is. -/
def restorePayload (evidence : ProposalEvidence) : Except RestoreError ProposalEvidence :=
  if evidence.payload = [] then .ok evidence
  else
    match z.decode evidence.payload with
    | none => .ok evidence
    | some wrapper =>
      if wrapper.codec = "" then .ok evidence
      else if wrapper.codec ≠ durableProposalPayloadCodec then .error (.codec wrapper.codec)
      else if wrapper.encoding ≠ durableProposalEncoding then .error (.encoding wrapper.encoding)
      else if wrapper.uncompressedBytes < 1 ∨
          durableProposalMaximumSemanticBytes < wrapper.uncompressedBytes then
        .error (.size wrapper.uncompressedBytes)
      else
        match z.gunzip wrapper.payloadGzipBase64 with
        | none => .error .compressed
        | some data =>
          let semantic := data.take (durableProposalMaximumSemanticBytes + 1)
          if (semantic.length : Int) ≠ wrapper.uncompressedBytes then
            .error (.sizeMismatch semantic.length wrapper.uncompressedBytes)
          else if z.sha256 semantic ≠ wrapper.uncompressedSHA256 then .error .digestMismatch
          else if evidence.payloadDigest ≠ "" ∧ evidence.payloadDigest ≠ z.sha256 semantic then
            .error .commitmentMismatch
          else .ok { evidence with payload := semantic }

def restoreBlockFromDurableStorage (b : DurableBlock β) : Except RestoreError (DurableBlock β) :=
  match b.evidence with
  | none => .ok b
  | some evidence =>
    match restorePayload z evidence with
    | .error err => .error err
    | .ok evidence => .ok { b with evidence := some evidence }

variable {z}

lemma restore_fields {stored b : DurableBlock β}
    (h : restoreBlockFromDurableStorage z stored = .ok b) :
    stored.height = b.height ∧ stored.blockHash = b.blockHash := by
  unfold restoreBlockFromDurableStorage at h
  split at h
  · cases h
    exact ⟨rfl, rfl⟩
  · split at h
    · cases h
    · cases h
      exact ⟨rfl, rfl⟩

end Compression

/-! ## Files -/

/-- JSON of the rows.  A block is read back if its evidence is written as it is.  `member` reads a
row as an object and returns its member `"block"`, `header` reads the height of a block alone, and
`blank` says that a line is white space. -/
structure StoreFormat (β : Type) where
  receipts : LineCodec Receipt
  txIndex : LineCodec TxIndexRecord
  blocks : LineFormat (DurableBlock β)
  markers : MarkerFormat
  compression : Compression
  decode : Bytes → Option (DurableBlock β)
  decode_encode : ∀ b, compression.row b = some b → decode (blocks.encode b) = some b
  member : Bytes → Option (Option Bytes)
  member_encode : ∀ b, member (blocks.encode b) = some none
  header : Bytes → Option Nat
  header_encode : ∀ b, header (blocks.encode b) = some b.height
  blank : Bytes → Bool
  blank_encode : ∀ m, blank (markers.encode m) = false

/-- The files of a store; `legacy` is `committed_blocks.jsonl`. -/
structure Files where
  legacy : Option Bytes := none
  receipts : Option Bytes := none
  txIndex : Option Bytes := none
  blocks : Option Bytes := none
  markers : Option Bytes := none
deriving DecidableEq

def maxCommittedBlockRecordBytes : Nat := 64 * 1024 * 1024

def appendFile (file : Option Bytes) (bytes : Bytes) : Option Bytes :=
  some (file.getD [] ++ bytes)

inductive Stage where
  | receipts
  | txIndex
  | blocks
  | markers
deriving DecidableEq, Repr

section Commits

variable {β : Type} (fmt : StoreFormat β) (nodeID shardID : String)

def indexRecords (result : Execution) : List TxIndexRecord :=
  result.receipts.map fun receipt =>
    ⟨receipt.txID, receipt.blockHash, receipt.height, receipt.success, result.receiptRoot⟩

/-- The marker of a block that is appended to the file. -/
def commitMarker (files : Files) (b stored : DurableBlock β) (result : Execution) : CommitMarker :=
  let offset : Int := (files.blocks.getD []).length
  let length : Int := (fmt.blocks.line stored).length
  ⟨markerVersion, nodeID, shardID, b.height, b.blockHash, result.receiptRoot, result.stateRootAfter,
    true, offset, length, offset + length⟩

/-- The row of a block: none if its evidence is too large, and no row if it is not JSON. -/
def storedRow (b : DurableBlock β) : Option (Option (DurableBlock β)) :=
  (blockForDurableStorage fmt.compression { b with stateCommit := true }).map fmt.compression.row

/-- The append of a row of which `written` bytes get to the disk; the file is opened before the row
is encoded. -/
def appendRow (file : Option Bytes) (b : DurableBlock β) (written : Nat) : Option Bytes :=
  match storedRow fmt b with
  | none => file
  | some row => appendFile file ((row.elim [] fmt.blocks.line).take written)

/-- `DurableCommitWithMetrics`, when it stops in a stage of which `written` bytes get to the
disk. -/
def durableAppends (files : Files) (b : DurableBlock β) (result : Execution) : Stage → Nat → Files
  | .receipts, written =>
    { files with
      receipts := appendFile files.receipts ((fmt.receipts.file result.receipts).take written) }
  | .txIndex, written =>
    { files with
      receipts := appendFile files.receipts (fmt.receipts.file result.receipts)
      txIndex := appendFile files.txIndex ((fmt.txIndex.file (indexRecords result)).take written) }
  | .blocks, written =>
    { files with
      receipts := appendFile files.receipts (fmt.receipts.file result.receipts)
      txIndex := appendFile files.txIndex (fmt.txIndex.file (indexRecords result))
      blocks := appendRow fmt files.blocks b written }
  | .markers, written =>
    match storedRow fmt b with
    | some (some stored) =>
      { files with
        receipts := appendFile files.receipts (fmt.receipts.file result.receipts)
        txIndex := appendFile files.txIndex (fmt.txIndex.file (indexRecords result))
        blocks := appendFile files.blocks (fmt.blocks.line stored)
        markers := appendFile files.markers
          ((fmt.markers.line (commitMarker fmt nodeID shardID files b stored result)).take written)
            }
    | _ =>
      { files with
        receipts := appendFile files.receipts (fmt.receipts.file result.receipts)
        txIndex := appendFile files.txIndex (fmt.txIndex.file (indexRecords result))
        blocks := appendRow fmt files.blocks b 0 }

/-- `DurableCommit`; it fails when the evidence is too large or not JSON. -/
def durableCommit (files : Files) (b : DurableBlock β) (result : Execution) : Files × Bool :=
  match storedRow fmt b with
  | some (some stored) =>
    (durableAppends fmt nodeID shardID files b result .markers
      (fmt.markers.line (commitMarker fmt nodeID shardID files b stored result)).length, true)
  | _ => (durableAppends fmt nodeID shardID files b result .blocks 0, false)

end Commits

/-! ## Checkpoints -/

/-- The sizes of the four files; `none` for a file that is missing. -/
structure Checkpoint where
  receipts : Option Nat := none
  txIndex : Option Nat := none
  blocks : Option Nat := none
  markers : Option Nat := none
deriving DecidableEq, Repr

def Files.checkpoint (files : Files) : Checkpoint :=
  ⟨files.receipts.map List.length, files.txIndex.map List.length, files.blocks.map List.length,
    files.markers.map List.length⟩

/-- `Truncate`, which fills a file that is too short with zeros. -/
def truncate (data : Bytes) (size : Nat) : Bytes :=
  data.take size ++ List.replicate (size - data.length) 0

/-- `none` when the file of the checkpoint is missing. -/
def rollbackFile (file : Option Bytes) : Option Nat → Option (Option Bytes)
  | none => some none
  | some size => file.map fun data => some (truncate data size)

/-- `Rollback`; `none` when it fails. -/
def rollback (files : Files) (checkpoint : Checkpoint) : Option Files := do
  let receipts ← rollbackFile files.receipts checkpoint.receipts
  let txIndex ← rollbackFile files.txIndex checkpoint.txIndex
  let blocks ← rollbackFile files.blocks checkpoint.blocks
  let markers ← rollbackFile files.markers checkpoint.markers
  return { files with receipts := receipts, txIndex := txIndex, blocks := blocks, markers :=
    markers }

/-! ## Reading everything -/

inductive StoreError where
  | marker (err : MarkerError)
  | missing
  | rowDecode
  | blockDecode
  | restore (err : RestoreError)
  | invalidRow (height : Nat) (blockHash : String)
  | tooLong
  | txDecode
  | invalidRange (fromHeight toHeight : Nat)
  | noPayload
  | headerDecode (offset : Nat)
  | zeroHeight (offset : Nat)
  | readAt (height : Nat)
  | indexMismatch (requested decoded : Nat)
deriving DecidableEq, Repr

section Readers

variable {β : Type} (fmt : StoreFormat β)

def decodeBlock (raw : Bytes) : Except StoreError (DurableBlock β) :=
  match fmt.decode raw with
  | none => .error .blockDecode
  | some stored =>
    match restoreBlockFromDurableStorage fmt.compression stored with
    | .error err => .error (.restore err)
    | .ok item =>
      if item.height = 0 ∨ item.blockHash = "" then
        .error (.invalidRow item.height item.blockHash)
      else .ok item

/-- A row of `ReadCommitted`, wrapped or not. -/
def decodeRow (row : Bytes) : Except StoreError (DurableBlock β) :=
  match fmt.member row with
  | none => .error .rowDecode
  | some wrapped => decodeBlock fmt (wrapped.getD row)

def decodeRows : List Bytes → Except StoreError (List (DurableBlock β))
  | [] => .ok []
  | row :: rows =>
    match decodeRow fmt row with
    | .error err => .error err
    | .ok item =>
      match decodeRows rows with
      | .error err => .error err
      | .ok items => .ok (item :: items)

/-- `ReadCommitted`.  Without markers all blocks of the legacy file count, and none of the other. -/
def readCommitted (files : Files) : Except StoreError (List (DurableBlock β)) :=
  match committedMarkerHashes fmt.markers files.markers with
  | .error err => .error (.marker err)
  | .ok markers =>
    match files.legacy.or files.blocks with
    | none => .error .missing
    | some data =>
      match decodeRows fmt (scan maxCommittedBlockRecordBytes data).1 with
      | .error err => .error err
      | .ok items =>
        if (scan maxCommittedBlockRecordBytes data).2 then .error .tooLong
        else .ok (items.filter fun item =>
          if markers = ∅ then files.legacy.isSome else item.blockHash ∈ markers)

/-- The loop of `HasTransaction`. -/
def findTransaction (committed : Finset String) (txID : String) : List Bytes →
    Except StoreError Bool
  | [] => .ok false
  | row :: rows =>
    match fmt.txIndex.decode row with
    | none => .error .txDecode
    | some record =>
      if record.txID = txID ∧ record.blockHash ∈ committed then .ok true
      else findTransaction committed txID rows

def hasTransaction (files : Files) (txID : String) : Except StoreError Bool :=
  match committedMarkerHashes fmt.markers files.markers with
  | .error err => .error (.marker err)
  | .ok committed =>
    if committed = ∅ then .ok false
    else
      match files.txIndex with
      | none => .ok false
      | some data =>
        match findTransaction fmt committed txID (scan scanLimit data).1 with
        | .error err => .error err
        | .ok true => .ok true
        | .ok false => if (scan scanLimit data).2 then .error .tooLong else .ok false

/-! ## Reading a range -/

structure BlockOffset where
  offset : Nat
  length : Nat
deriving DecidableEq, Repr

/-- `durableBlockRangeIndex`; there is one for each path. -/
structure RangeIndex where
  indexedSize : Nat := 0
  offsets : GoMap Nat BlockOffset := ∅

/-- The state of `seedFromCommitMarkers`. -/
structure Seed where
  offsets : GoMap Nat BlockOffset := ∅
  expectedOffset : Int := 0
  lastHeight : Nat := 0
  count : Nat := 0

/-- The marker continues the ones before it without a gap. -/
def Seed.Accepts (s : Seed) (sourceSize : Nat) (marker : CommitMarker) : Prop :=
  (marker.version = markerVersion ∧ marker.committed = true ∧ marker.height ≠ 0 ∧
    marker.blockHash ≠ "") ∧
  (0 < marker.blockLength ∧ marker.blockLength ≤ maxCommittedBlockRecordBytes ∧
    0 < marker.blockSourceSize) ∧
  (marker.blockOffset = s.expectedOffset ∧
    marker.blockSourceSize = marker.blockOffset + marker.blockLength ∧
    marker.blockSourceSize ≤ sourceSize ∧ (0 < s.lastHeight → s.lastHeight < marker.height))

instance (s : Seed) (sourceSize : Nat) (marker : CommitMarker) :
    Decidable (s.Accepts sourceSize marker) :=
  inferInstanceAs (Decidable (_ ∧ _ ∧ _))

def Seed.add (s : Seed) (marker : CommitMarker) : Seed :=
  ⟨s.offsets.put marker.height ⟨marker.blockOffset.toNat, marker.blockLength.toNat⟩,
    marker.blockSourceSize, marker.height, s.count + 1⟩

def seedLine (sourceSize : Nat) (s : Seed) (line : Bytes) : Option Seed :=
  if fmt.blank line then some s
  else
    match fmt.markers.decode line with
    | none => none
    | some marker => if s.Accepts sourceSize marker then some (s.add marker) else none

def seedFromCommitMarkers (legacyWrapped : Bool) (markers : Option Bytes) (sourceSize : Nat) :
    Option RangeIndex :=
  if legacyWrapped ∨ sourceSize = 0 then none
  else
    match markers with
    | none => none
    | some data =>
      match (split data).1.foldlM (seedLine fmt sourceSize) {} with
      | none => none
      | some s => if s.count = 0 then none else some ⟨s.expectedOffset.toNat, s.offsets⟩

def durableBlockHeightFromLine (legacyWrapped : Bool) (line : Bytes) : Option Nat :=
  if legacyWrapped then
    match fmt.member line with
    | some (some raw) => fmt.header raw
    | _ => none
  else fmt.header line

/-- The loop over the terminated lines of `refresh`; entries stay when it fails. -/
def indexLines (legacyWrapped : Bool) :
    Nat → List Bytes → GoMap Nat BlockOffset → GoMap Nat BlockOffset × Except StoreError Nat
  | offset, [], offsets => (offsets, .ok offset)
  | offset, line :: lines, offsets =>
    match durableBlockHeightFromLine fmt legacyWrapped line with
    | none => (offsets, .error (.headerDecode offset))
    | some height =>
      if height = 0 then (offsets, .error (.zeroHeight offset))
      else
        indexLines legacyWrapped (offset + (line.length + 1)) lines
          (offsets.put height ⟨offset, line.length + 1⟩)

/-- The scan of the file from the indexed size on. -/
def RangeIndex.scanFrom (legacyWrapped : Bool) (idx : RangeIndex) (data : Bytes) :
    RangeIndex × Option StoreError :=
  let scanned := indexLines fmt legacyWrapped idx.indexedSize (split (data.drop idx.indexedSize)).1
    idx.offsets
  match scanned.2 with
  | .error err => ({ idx with offsets := scanned.1 }, some err)
  | .ok offset => (⟨offset, scanned.1⟩, none)

def RangeIndex.refresh (legacyWrapped : Bool) (idx : RangeIndex) (markers : Option Bytes)
    (data : Bytes) : RangeIndex × Option StoreError :=
  if data.length = idx.indexedSize then (idx, none)
  else
    let idx := if data.length < idx.indexedSize then {} else idx
    let seeded := if idx.indexedSize = 0 ∧ idx.offsets.len = 0 ∧ legacyWrapped = false then
      seedFromCommitMarkers fmt legacyWrapped markers data.length else none
    match seeded with
    | some idx => if data.length = idx.indexedSize then (idx, none)
        else idx.scanFrom fmt legacyWrapped data
    | none => idx.scanFrom fmt legacyWrapped data

def decodeDurableBlockLine (legacyWrapped : Bool) (line : Bytes) :
    Except StoreError (DurableBlock β) :=
  if legacyWrapped then
    match fmt.member line with
    | none => .error .rowDecode
    | some none => .error .noPayload
    | some (some raw) => decodeBlock fmt raw
  else decodeBlock fmt line

def dropNewline (line : Bytes) : Bytes :=
  if line.getLast? = some newline then line.dropLast else line

/-- The block of a height, if the index has one and it is committed. -/
def readHeight (legacyWrapped : Bool) (idx : RangeIndex) (markers : Finset String) (data : Bytes)
    (height : Nat) : Except StoreError (List (DurableBlock β)) :=
  match idx.offsets.find height with
  | none => .ok []
  | some record =>
    let line := (data.drop record.offset).take record.length
    if line.length < record.length then .error (.readAt height)
    else
      match decodeDurableBlockLine fmt legacyWrapped (dropNewline line) with
      | .error err => .error err
      | .ok item =>
        if item.height ≠ height then .error (.indexMismatch height item.height)
        else if (markers = ∅ ∧ legacyWrapped = true) ∨ item.blockHash ∈ markers then .ok [item]
        else .ok []

def readHeights (legacyWrapped : Bool) (idx : RangeIndex) (markers : Finset String) (data : Bytes) :
    List Nat → Except StoreError (List (DurableBlock β))
  | [] => .ok []
  | height :: heights =>
    match readHeight fmt legacyWrapped idx markers data height with
    | .error err => .error err
    | .ok items =>
      match readHeights legacyWrapped idx markers data heights with
      | .error err => .error err
      | .ok rest => .ok (items ++ rest)

structure Store where
  files : Files := {}
  index : RangeIndex := {}
  legacyIndex : RangeIndex := {}

/-- `ReadCommittedRange`, which refreshes the index of the path it reads. -/
def readCommittedRange (s : Store) (fromHeight toHeight : Nat) :
    Store × Except StoreError (List (DurableBlock β)) :=
  if fromHeight = 0 ∨ toHeight < fromHeight then
    (s, .error (.invalidRange fromHeight toHeight))
  else
    match s.files.legacy.or s.files.blocks with
    | none => (s, .error .missing)
    | some data =>
      let legacyWrapped := s.files.legacy.isSome
      let refreshed := (if legacyWrapped then s.legacyIndex else s.index).refresh fmt legacyWrapped
        s.files.markers data
      let s := if legacyWrapped then { s with legacyIndex := refreshed.1 }
        else { s with index := refreshed.1 }
      match refreshed.2 with
      | some err => (s, .error err)
      | none =>
        match committedMarkerHashes fmt.markers s.files.markers with
        | .error err => (s, .error (.marker err))
        | .ok markers =>
          (s, readHeights fmt legacyWrapped refreshed.1 markers data
            (List.range' fromHeight (toHeight + 1 - fromHeight)))

end Readers

end ChainLab.Storage
