import ChainLab.Storage.BlockStore

/-!
# Histories of a block store

A history has durable commits that succeed, fail or end in a crash, rollbacks and reads.  A ledger
keeps what the appends have left: the rows of the transaction index and of the blocks, the blocks
whose marker line is whole, and what an interrupted append left after them.
-/

namespace ChainLab.Storage

open List Journal LineFormat

variable {β : Type}

/-! ## Ledgers -/

structure Committed (β : Type) where
  block : DurableBlock β
  stored : DurableBlock β
  result : Execution
  marker : CommitMarker

def Committed.span (c : Committed β) : BlockOffset :=
  ⟨c.marker.blockOffset.toNat, c.marker.blockLength.toNat⟩

structure Ledger (β : Type) where
  txs : List TxIndexRecord := []
  rows : List (DurableBlock β) := []
  committed : List (Committed β) := []
  txTail : Bytes := []
  blockTail : Bytes := []
  markerTail : Bytes := []

section

variable (fmt : StoreFormat β)

def StoreFormat.restored (stored : DurableBlock β) : DurableBlock β :=
  match restoreBlockFromDurableStorage fmt.compression stored with
  | .ok b => b
  | .error _ => stored

structure Readable (stored : DurableBlock β) : Prop where
  row : fmt.compression.row stored = some stored
  restores : restoreBlockFromDurableStorage fmt.compression stored = .ok (fmt.restored stored)
  height_ne : stored.height ≠ 0
  hash_ne : stored.blockHash ≠ ""
  short : (fmt.blocks.encode stored).length < maxCommittedBlockRecordBytes

/-- The marker points to the row of its block, and later rows are of greater heights. -/
structure Placed (rows : List (DurableBlock β)) (c : Committed β)
    (pre post : List (DurableBlock β)) :
    Prop where
  rows_eq : rows = pre ++ c.stored :: post
  offset : c.marker.blockOffset = (fmt.blocks.file pre).length
  length : c.marker.blockLength = (fmt.blocks.line c.stored).length
  sourceSize : c.marker.blockSourceSize = c.marker.blockOffset + c.marker.blockLength
  above : ∀ stored ∈ post, c.stored.height < stored.height
  valid : c.marker.row.valid = true
  restored : fmt.restored c.stored = c.block
  height : c.marker.height = c.stored.height
  hash : c.marker.blockHash = c.stored.blockHash

structure Consistent (l : Ledger β) : Prop where
  readable : ∀ stored ∈ l.rows, Readable fmt stored
  placed : ∀ c ∈ l.committed, ∃ pre post, Placed fmt l.rows c pre post
  increasing : l.committed.Pairwise fun c c' => c.stored.height < c'.stored.height
  distinct : l.rows.Pairwise fun stored stored' => stored.blockHash ≠ stored'.blockHash

structure Holds (files : Files) (l : Ledger β) : Prop where
  legacy : files.legacy = none
  blocks : files.blocks.getD [] = fmt.blocks.file l.rows ++ l.blockTail
  markers : files.markers.getD [] = fmt.markers.file (l.committed.map Committed.marker) ++
    l.markerTail
  tail : newline ∉ l.markerTail

def Ledger.hashes (l : Ledger β) : Finset String :=
  (l.committed.map fun c => c.marker.blockHash).toFinset

end

variable {fmt : StoreFormat β} {files : Files} {l : Ledger β}

variable {stored : DurableBlock β} {c : Committed β} {indexed post pre rows : List (DurableBlock β)}
  {idx : RangeIndex}

/-- Blocks of increasing heights are determined by which they are. -/
lemma eq_of_height_lt {items items' : List (DurableBlock β)}
    (h : items.Pairwise fun b b' => b.height < b'.height)
    (h' : items'.Pairwise fun b b' => b.height < b'.height) (hmem : ∀ b, b ∈ items ↔ b ∈ items') :
    items = items' := by
  have : Std.Irrefl fun b b' : DurableBlock β => b.height < b'.height := ⟨fun _ => lt_irrefl _⟩
  have : Std.Antisymm fun b b' : DurableBlock β => b.height < b'.height :=
    ⟨fun _ _ hlt hgt => absurd hgt hlt.not_gt⟩
  exact h.eq_of_mem_iff h' hmem

lemma Readable.fields (h : Readable fmt stored) : (fmt.restored stored).height = stored.height ∧
      (fmt.restored stored).blockHash = stored.blockHash := by
  obtain ⟨hht, hhash⟩ := restore_fields h.restores
  exact ⟨hht.symm, hhash.symm⟩

lemma Readable.decodeBlock (h : Readable fmt stored) :
    decodeBlock fmt (fmt.blocks.encode stored) = .ok (fmt.restored stored) := by
  obtain ⟨hht, hhash⟩ := h.fields
  have hval : ¬ ((fmt.restored stored).height = 0 ∨ (fmt.restored stored).blockHash = "") := by
    rw [hht, hhash, not_or]
    exact ⟨h.height_ne, h.hash_ne⟩
  simp only [Storage.decodeBlock, fmt.decode_encode stored h.row, h.restores, if_neg hval]

/-! ## The markers -/

lemma committedMarkerHashes_file {format : MarkerFormat} {markers : List CommitMarker}
    {tail : Bytes} (hval : ∀ m ∈ markers, m.row.valid = true) (htail : newline ∉ tail) :
    committedMarkerHashes format (some (format.file markers ++ tail)) =
      .ok (markers.map CommitMarker.blockHash).toFinset := by
  have hmarks : ∀ m ∈ markers, Marks format.markerRow (format.encode m) m.blockHash := by
    intro m hm
    refine ⟨m.row, ?_, hval m hm, rfl⟩
    simp [MarkerFormat.markerRow, format.decode_encode]
  rw [committedMarkerHashes_eq_ok, split_file markers htail]
  simp only [mem_map, forall_exists_index, and_imp, forall_apply_eq_imp_iff₂,
    exists_exists_and_eq_and, mem_toFinset]
  refine ⟨fun m hm => ⟨m.blockHash, hmarks m hm⟩, fun hash => ?_⟩
  constructor
  · rintro ⟨m, hm, rfl⟩
    exact ⟨m, hm, hmarks m hm⟩
  · rintro ⟨m, hm, h⟩
    exact ⟨m, hm, (hmarks m hm).unique h⟩

lemma Ledger.mem_hashes {hash : String} :
    hash ∈ l.hashes ↔ ∃ c ∈ l.committed, c.marker.blockHash = hash := by
  simp [Ledger.hashes]

/-! ## The readers that scan a file -/

lemma decodeRows_encode (h : ∀ stored ∈ rows, Readable fmt stored) :
    decodeRows fmt (rows.map fmt.blocks.encode) = .ok (rows.map fmt.restored) := by
  induction rows with
  | nil => rfl
  | cons stored rows ih =>
    have hrow : decodeRow fmt (fmt.blocks.encode stored) = .ok (fmt.restored stored) := by
      simp only [decodeRow, fmt.member_encode, Option.getD_none]
      exact (h stored mem_cons_self).decodeBlock
    have hrest := ih fun x hx => h x (mem_cons_of_mem _ hx)
    simp only [map_cons, decodeRows, hrow, hrest]

lemma findTransaction_encode (committed : Finset String) (txID : String)
    (txs : List TxIndexRecord) :
    findTransaction fmt committed txID (txs.map fmt.txIndex.encode) =
      .ok (txs.any fun record => record.txID = txID ∧ record.blockHash ∈ committed) := by
  induction txs with
  | nil => rfl
  | cons record txs ih =>
    simp only [map_cons, findTransaction, fmt.txIndex.decode_encode, ih]
    split
    · next hmatch => simp [hmatch]
    · next hmatch => simp [hmatch]

section

variable (h : Holds fmt files l) (hl : Consistent fmt l)
include hl

lemma Consistent.mem_rows (hc : c ∈ l.committed) : c.stored ∈ l.rows := by
  obtain ⟨pre, post, hplaced⟩ := hl.placed c hc
  rw [hplaced.rows_eq]
  exact mem_append_right _ mem_cons_self

lemma Consistent.hash_eq (hc : c ∈ l.committed) : c.marker.blockHash = c.stored.blockHash := by
  obtain ⟨pre, post, hplaced⟩ := hl.placed c hc
  exact hplaced.hash

/-- No two rows have one hash. -/
lemma Consistent.eq_of_hash {stored' : DurableBlock β} (hmem : stored ∈ l.rows)
    (hmem' : stored' ∈ l.rows) (h : stored.blockHash = stored'.blockHash) : stored = stored' := by
  by_contra hne
  have : Std.Symm fun b b' : DurableBlock β => b.blockHash ≠ b'.blockHash := ⟨fun _ _ => Ne.symm⟩
  exact hl.distinct.forall hmem hmem' hne h

lemma Consistent.mem_hashes (hmem : stored ∈ l.rows) :
    stored.blockHash ∈ l.hashes ↔ ∃ c ∈ l.committed, c.stored = stored := by
  rw [Ledger.mem_hashes]
  refine exists_congr fun c => and_congr_right fun hc => ?_
  rw [hl.hash_eq hc]
  exact ⟨hl.eq_of_hash (hl.mem_rows hc) hmem, congrArg _⟩

/-- Of two rows the later one is above the earlier one, if that one is committed. -/
lemma Consistent.above : l.rows.Pairwise fun stored later =>
    (∃ c ∈ l.committed, c.stored = stored) → stored.height < later.height := by
  have hnodup : l.rows.Nodup := hl.distinct.imp fun h heq => h (congrArg _ heq)
  rw [pairwise_iff_getElem]
  rintro i j hi hj hij ⟨c, hc, heq⟩
  obtain ⟨pre, post, hplaced⟩ := hl.placed c hc
  -- the row of the marker is the one at `i`
  have hlen : pre.length < l.rows.length := by simp [hplaced.rows_eq]
  have hpre : l.rows[pre.length] = c.stored := by simp [hplaced.rows_eq]
  have hi' : pre.length = i := (hnodup.getElem_inj_iff).1 (hpre.trans heq)
  have hpost : l.rows[j] ∈ post := by
    have hdrop : l.rows.drop (i + 1) = post := by simp [hplaced.rows_eq, ← hi']
    rw [← hdrop]
    exact mem_drop_iff_getElem.2 ⟨j - (i + 1), by omega, by congr 1; omega⟩
  rw [← heq]
  exact hplaced.above _ hpost

/-- The rows with a marker are the committed blocks, in their order. -/
lemma Consistent.filter_rows :
    l.rows.filter (fun stored => stored.blockHash ∈ l.hashes) =
      l.committed.map Committed.stored := by
  refine eq_of_height_lt ?_ (pairwise_map.2 hl.increasing) fun stored => ?_
  · refine pairwise_filter.2 (hl.above.imp_of_mem fun hmem _ habove hhash _ => habove ?_)
    exact (hl.mem_hashes hmem).1 (of_decide_eq_true hhash)
  · rw [mem_filter, decide_eq_true_eq, mem_map]
    constructor
    · rintro ⟨hmem, hhash⟩
      exact (hl.mem_hashes hmem).1 hhash
    · rintro ⟨c, hc, rfl⟩
      exact ⟨hl.mem_rows hc, (hl.mem_hashes (hl.mem_rows hc)).2 ⟨c, hc, rfl⟩⟩

lemma Consistent.map_restored : (l.committed.map Committed.stored).map fmt.restored =
    l.committed.map Committed.block := by
  rw [map_map]
  refine map_congr_left fun c hc => ?_
  obtain ⟨pre, post, hplaced⟩ := hl.placed c hc
  exact hplaced.restored

include h

lemma Holds.committedMarkerHashes :
    committedMarkerHashes fmt.markers files.markers = .ok l.hashes := by
  have hval : ∀ m ∈ l.committed.map Committed.marker, m.row.valid = true := by
    intro m hm
    obtain ⟨c, hc, rfl⟩ := mem_map.1 hm
    obtain ⟨pre, post, hplaced⟩ := hl.placed c hc
    exact hplaced.valid
  have hhashes :
      l.hashes = ((l.committed.map Committed.marker).map CommitMarker.blockHash).toFinset := by
    rw [map_map]
    rfl
  have hfile := h.markers
  cases hmark : files.markers with
  | none =>
    rw [hmark] at hfile
    have hnil := (file_eq_nil _).1 (append_eq_nil_iff.1 hfile.symm).1
    rw [hhashes, hnil]
    rfl
  | some data =>
    rw [hmark, Option.getD_some] at hfile
    rw [hfile, hhashes]
    exact committedMarkerHashes_file hval h.tail

/-- A full read returns the committed blocks in their order. -/
lemma readCommitted_eq (hwhole : l.blockTail = []) (hfile : files.blocks.isSome = true) :
    readCommitted fmt files = .ok (l.committed.map Committed.block) := by
  obtain ⟨data, hdata⟩ := Option.isSome_iff_exists.1 hfile
  have hblks := h.blocks
  rw [hdata, hwhole, Option.getD_some, append_nil] at hblks
  have hscan : scan maxCommittedBlockRecordBytes data = (l.rows.map fmt.blocks.encode, false) := by
    rw [hblks]
    exact scan_file fun stored hstor => (hl.readable stored hstor).short
  simp only [readCommitted, h.committedMarkerHashes hl, h.legacy, hdata, Option.none_or, hscan,
    decodeRows_encode hl.readable]
  rw [← hl.map_restored, ← hl.filter_rows, filter_map]
  refine congrArg Except.ok (congrArg _ (filter_congr fun stored hmem => ?_))
  rw [Function.comp_apply, (hl.readable stored hmem).fields.2]
  by_cases hemp : l.hashes = ∅
  · simp [hemp]
  · simp [hemp]

lemma hasTransaction_eq (htxs : files.txIndex.getD [] = fmt.txIndex.file l.txs)
    (hshort : ∀ record ∈ l.txs, (fmt.txIndex.encode record).length < scanLimit) (txID : String) :
    hasTransaction fmt files txID =
      .ok (l.txs.any fun record => record.txID = txID ∧ record.blockHash ∈ l.hashes) := by
  simp only [hasTransaction, h.committedMarkerHashes hl]
  by_cases hemp : l.hashes = ∅
  · simp [hemp]
  rw [if_neg hemp]
  cases hdata : files.txIndex with
  | none =>
    rw [hdata] at htxs
    have hnil : l.txs = [] := (file_eq_nil _).1 htxs.symm
    simp [hnil]
  | some data =>
    rw [hdata, Option.getD_some] at htxs
    have hscan : scan scanLimit data = (l.txs.map fmt.txIndex.encode, false) := by
      rw [htxs]
      exact scan_file hshort
    simp only [hscan, findTransaction_encode]
    cases l.txs.any fun record => decide (record.txID = txID ∧ record.blockHash ∈ l.hashes) with
    | true => rfl
    | false => rfl

end

/-! ## The index -/

def At (fmt : StoreFormat β) (rows : List (DurableBlock β)) (span : BlockOffset)
    (stored : DurableBlock β) : Prop :=
  ∃ pre post, rows = pre ++ stored :: post ∧
    span = ⟨(fmt.blocks.file pre).length, (fmt.blocks.line stored).length⟩

/-- The index has the offsets of the rows `indexed`. -/
structure Covers (fmt : StoreFormat β) (idx : RangeIndex) (rows indexed : List (DurableBlock β))
    (committed : List (Committed β)) : Prop where
  initial : indexed <+: rows
  size : idx.indexedSize = (fmt.blocks.file indexed).length
  spans : ∀ height span, idx.offsets.find height = some span →
    ∃ stored, At fmt indexed span stored ∧ stored.height = height
  finds : ∀ c ∈ committed, c.marker.blockSourceSize ≤ idx.indexedSize →
    idx.offsets.find c.stored.height = some c.span

variable {span : BlockOffset}

lemma At.append (h : At fmt rows span stored) (rest : List (DurableBlock β)) :
    At fmt (rows ++ rest) span stored := by
  obtain ⟨pre, post, rfl, hspan⟩ := h
  exact ⟨pre, post ++ rest, by simp, hspan⟩

lemma At.unique {stored' : DurableBlock β} (h : At fmt rows span stored)
    (h' : At fmt rows span stored') : stored = stored' := by
  obtain ⟨pre, post, hrows, hspan⟩ := h
  obtain ⟨pre', post', hrows', hspan'⟩ := h'
  have hlen : (fmt.blocks.file pre).length = (fmt.blocks.file pre').length :=
    congrArg BlockOffset.offset (hspan.symm.trans hspan')
  have hpre : pre = pre' := eq_of_length_file ⟨_, hrows.symm⟩ ⟨_, hrows'.symm⟩ hlen
  rw [hrows, hpre] at hrows'
  exact (List.cons.inj (append_cancel_left hrows')).1

lemma Placed.at (h : Placed fmt rows c pre post) : At fmt rows c.span c.stored := by
  refine ⟨pre, post, h.rows_eq, ?_⟩
  simp [Committed.span, h.offset, h.length]

lemma Placed.sourceSize_eq (h : Placed fmt rows c pre post) :
    c.marker.blockSourceSize = (fmt.blocks.file (pre ++ [c.stored])).length := by
  rw [h.sourceSize, h.offset, h.length, file_append, file_singleton, length_append, Int.natCast_add]

variable {committed : List (Committed β)}

lemma covers_empty (fmt : StoreFormat β) (rows : List (DurableBlock β))
    (h : ∀ c ∈ committed, ∃ pre post, Placed fmt rows c pre post) :
    Covers fmt {} rows [] committed where
  initial := nil_prefix
  size := rfl
  spans height span hfind := by cases hfind
  finds c hc hsize := by
    obtain ⟨pre, post, hplaced⟩ := h c hc
    have hpos := length_line_pos (c := fmt.blocks) c.stored
    rw [hplaced.sourceSize, hplaced.offset, hplaced.length] at hsize
    have hzero : ((fmt.blocks.file pre).length : Int) + (fmt.blocks.line c.stored).length ≤ 0 :=
      hsize
    omega

/-- The offsets after a scan of the rows `mid`, which follow the rows `pre`. -/
structure Extended (fmt : StoreFormat β) (pre mid : List (DurableBlock β))
    (offsets offsets' : GoMap Nat BlockOffset) : Prop where
  spans : ∀ height span, offsets'.find height = some span → offsets.find height = some span ∨
    ∃ stored, At fmt (pre ++ mid) span stored ∧ stored.height = height
  last : ∀ p stored q, mid = p ++ stored :: q → (∀ other ∈ q, other.height ≠ stored.height) →
    offsets'.find stored.height =
      some ⟨(fmt.blocks.file (pre ++ p)).length, (fmt.blocks.line stored).length⟩
  other : ∀ height, (∀ stored ∈ mid, stored.height ≠ height) →
    offsets'.find height = offsets.find height

lemma indexLines_encode {mid : List (DurableBlock β)} (pre : List (DurableBlock β))
    (offsets : GoMap Nat BlockOffset) (h : ∀ stored ∈ mid, Readable fmt stored) :
    ∃ offsets',
      indexLines fmt false (fmt.blocks.file pre).length (mid.map fmt.blocks.encode) offsets =
        (offsets', .ok (fmt.blocks.file (pre ++ mid)).length) ∧
      Extended fmt pre mid offsets offsets' := by
  induction mid generalizing pre offsets with
  | nil =>
    refine ⟨offsets, by simp [indexLines], ?_, ?_, fun _ _ => rfl⟩
    · exact fun height span hfind => .inl hfind
    · intro p stored q hmid
      simp at hmid
  | cons stored mid ih =>
    have hpos := (h stored mem_cons_self).height_ne
    have hline : (fmt.blocks.encode stored).length + 1 = (fmt.blocks.line stored).length := by
      simp [LineFormat.line]
    have hoffset : (fmt.blocks.file pre).length + (fmt.blocks.line stored).length =
        (fmt.blocks.file (pre ++ [stored])).length := by
      rw [file_append, file_singleton, length_append]
    rcases ih (pre ++ [stored]) (offsets.put stored.height
        ⟨(fmt.blocks.file pre).length, (fmt.blocks.line stored).length⟩)
        (fun x hx => h x (mem_cons_of_mem _ hx)) with ⟨offsets', hindex, hext⟩
    have happ : pre ++ [stored] ++ mid = pre ++ stored :: mid := by simp
    rw [happ] at hindex
    refine ⟨offsets', ?_, ?_, ?_, ?_⟩
    · simp only [map_cons, indexLines, durableBlockHeightFromLine, fmt.header_encode, hpos, hline,
        hoffset, hindex, if_false, Bool.false_eq_true]
    · intro height span hfind
      rcases hext.spans height span hfind with hput | ⟨stored', hat, hht⟩
      · obtain ⟨heq, hspan⟩ | hput := GoMap.of_find_put hput
        · exact .inr ⟨stored, ⟨pre, mid, rfl, hspan⟩, heq.symm⟩
        · exact .inl hput
      · rw [happ] at hat
        exact .inr ⟨stored', hat, hht⟩
    · intro p stored' q hmid hlast
      cases p with
      | nil =>
        obtain ⟨rfl, rfl⟩ := List.cons.inj hmid
        rw [hext.other _ hlast, GoMap.find_put_self, append_nil]
      | cons first p =>
        obtain ⟨rfl, rfl⟩ := List.cons.inj hmid
        have hfind := hext.last p stored' q rfl hlast
        rw [hfind]
        simp
    · intro height hother
      rw [hext.other height fun x hx => hother x (mem_cons_of_mem _ hx),
        GoMap.find_put_ne _ _ (hother stored mem_cons_self).symm]

/-! ## The seed of the index -/

structure Seeded (fmt : StoreFormat β) (rows : List (DurableBlock β)) (s : Seed)
    (committed : List (Committed β)) (indexed : List (DurableBlock β)) : Prop where
  initial : indexed <+: rows
  offset : s.expectedOffset = (fmt.blocks.file indexed).length
  spans : ∀ height span, s.offsets.find height = some span →
    ∃ stored, At fmt indexed span stored ∧ stored.height = height
  finds : ∀ c ∈ committed, s.offsets.find c.stored.height = some c.span

lemma Seeded.add {s : Seed} (h : Seeded fmt rows s committed indexed)
    (hplaced : Placed fmt rows c pre post)
    (hgt : ∀ other ∈ committed, other.stored.height < c.stored.height)
    (hoffset : c.marker.blockOffset = s.expectedOffset) :
    Seeded fmt rows (s.add c.marker) (committed ++ [c]) (indexed ++ [c.stored]) := by
  -- the marker continues the ones before, so its row is the next one
  have hpre : pre = indexed := by
    apply eq_of_length_file (c := fmt.blocks) ⟨_, hplaced.rows_eq.symm⟩ h.initial
    have heq : ((fmt.blocks.file pre).length : Int) = (fmt.blocks.file indexed).length :=
      hplaced.offset.symm.trans (hoffset.trans h.offset)
    exact_mod_cast heq
  subst hpre
  refine ⟨⟨post, by simp [hplaced.rows_eq]⟩, hplaced.sourceSize_eq, ?_, ?_⟩
  · intro height span hfind
    simp only [Seed.add, GoMap.find_put, hplaced.height] at hfind
    split at hfind
    · next heq =>
      refine ⟨c.stored, ⟨pre, [], rfl, ?_⟩, heq.symm⟩
      rw [← Option.some.inj hfind]
      simp [hplaced.offset, hplaced.length]
    · obtain ⟨stored, hat, hht⟩ := h.spans height span hfind
      exact ⟨stored, hat.append _, hht⟩
  · intro other hother
    simp only [Seed.add, GoMap.find_put, hplaced.height]
    rcases mem_append.1 hother with hold | hnew
    · rw [if_neg (hgt other hold).ne]
      exact h.finds other hold
    · rw [mem_singleton.1 hnew, if_pos rfl]
      rfl

lemma Seeded.foldlM {sourceSize : Nat} {s s' : Seed} {before after : List (Committed β)}
    (h : Seeded fmt rows s before indexed)
    (hplaced : ∀ c ∈ after, ∃ pre post, Placed fmt rows c pre post)
    (hincreasing : (before ++ after).Pairwise fun c c' => c.stored.height < c'.stored.height)
    (hseed : ((after.map Committed.marker).map fmt.markers.encode).foldlM
      (seedLine fmt sourceSize) s =
      some s') : ∃ indexed', Seeded fmt rows s' (before ++ after) indexed' := by
  induction after generalizing s before indexed with
  | nil =>
    cases hseed
    exact ⟨indexed, by simpa using h⟩
  | cons c after ih =>
    simp only [map_cons, foldlM_cons, seedLine, fmt.blank_encode, fmt.markers.decode_encode,
      Bool.false_eq_true, if_false] at hseed
    split at hseed
    · next hacc =>
      obtain ⟨pre, post, hc⟩ := hplaced c mem_cons_self
      have hgt : ∀ other ∈ before, other.stored.height < c.stored.height := fun other hother =>
        (pairwise_append.1 hincreasing).2.2 other hother c mem_cons_self
      have hadd := h.add hc hgt hacc.2.2.1
      have hrest := ih hadd (fun x hx => hplaced x (mem_cons_of_mem _ hx))
        (by simpa using hincreasing) hseed
      simpa using hrest
    · cases hseed

section

variable (hl : Consistent fmt l)
include hl

lemma Covers.scanFrom (h : Covers fmt idx l.rows indexed l.committed) :
    ∃ idx', idx.scanFrom fmt false (fmt.blocks.file l.rows) = (idx', none) ∧
      Covers fmt idx' l.rows l.rows l.committed := by
  obtain ⟨mid, hrows⟩ := h.initial
  have hmid : ∀ stored ∈ mid, Readable fmt stored := fun stored hstor =>
    hl.readable stored (hrows ▸ mem_append_right _ hstor)
  obtain ⟨offsets, hindex, hext⟩ := indexLines_encode indexed idx.offsets hmid
  have hsplit : (split ((fmt.blocks.file l.rows).drop (fmt.blocks.file indexed).length)).1 =
      mid.map fmt.blocks.encode := by
    have hfile := split_file (c := fmt.blocks) mid (not_mem_nil (a := newline))
    rw [← hrows, file_append, drop_left, ← append_nil (fmt.blocks.file mid), hfile]
  rw [hrows] at hindex
  refine ⟨⟨(fmt.blocks.file l.rows).length, offsets⟩, ?_, prefix_refl _, rfl, ?_, ?_⟩
  · simp only [RangeIndex.scanFrom, h.size, hsplit, hindex]
  · intro height span hfind
    rcases hext.spans height span hfind with hold | hnew
    · obtain ⟨stored, hat, hht⟩ := h.spans height span hold
      exact ⟨stored, hrows ▸ hat.append mid, hht⟩
    · rw [hrows] at hnew
      exact hnew
  · intro c hc _
    obtain ⟨pre, post, hplaced⟩ := hl.placed c hc
    have hspan : c.span = ⟨(fmt.blocks.file pre).length, (fmt.blocks.line c.stored).length⟩ := by
      simp [Committed.span, hplaced.offset, hplaced.length]
    have hinit : pre ++ [c.stored] <+: l.rows := ⟨post, by simp [hplaced.rows_eq]⟩
    -- the row of the marker is one of the new rows, or was indexed before
    rcases Nat.lt_or_ge idx.indexedSize (fmt.blocks.file (pre ++ [c.stored])).length with hlt | hge
    · obtain ⟨p, rfl⟩ : indexed <+: pre := by
        have hle := prefix_of_length_file h.initial hinit (h.size ▸ hlt.le)
        refine (prefix_concat_iff.1 hle).resolve_left ?_
        rintro rfl
        exact hlt.ne h.size
      have hmid' : mid = p ++ c.stored :: post := by
        have heq := hrows.trans hplaced.rows_eq
        rw [append_assoc] at heq
        exact append_cancel_left heq
      rw [hext.last p c.stored post hmid' fun other hother => (hplaced.above other hother).ne',
        hspan]
    · have hother : ∀ stored ∈ mid, stored.height ≠ c.stored.height := by
        obtain ⟨p, rfl⟩ := prefix_of_length_file hinit h.initial (h.size ▸ hge)
        intro stored hstor
        have hpost : post = p ++ mid := by
          have heq := hplaced.rows_eq.symm.trans hrows.symm
          simp only [append_assoc, singleton_append] at heq
          exact (List.cons.inj (append_cancel_left heq)).2
        exact (hplaced.above stored (hpost ▸ mem_append_right _ hstor)).ne'
      rw [hext.other _ hother]
      apply h.finds c hc
      rw [hplaced.sourceSize_eq]
      exact_mod_cast hge

lemma seed_covers (hmark : Holds fmt files l) {size : Nat}
    (hseed : seedFromCommitMarkers fmt false files.markers size = some idx) :
    ∃ indexed, Covers fmt idx l.rows indexed l.committed := by
  unfold seedFromCommitMarkers at hseed
  split at hseed
  · cases hseed
  split at hseed
  · cases hseed
  next data hdata =>
  have hfile := hmark.markers
  rw [hdata, Option.getD_some] at hfile
  rw [hfile, split_file _ hmark.tail] at hseed
  split at hseed
  · cases hseed
  next s hs =>
  split at hseed
  · cases hseed
  cases hseed
  have hstart : Seeded fmt l.rows {} [] [] :=
    ⟨List.nil_prefix, rfl, fun _ _ hfind => (Option.some_ne_none _ hfind.symm).elim, by simp⟩
  obtain ⟨indexed, hseeded⟩ := hstart.foldlM hl.placed hl.increasing hs
  refine ⟨indexed, hseeded.initial, ?_, hseeded.spans, fun c hc _ => hseeded.finds c hc⟩
  simp [hseeded.offset]

/-- A refresh covers all rows of a file, unless the file was cut below the indexed size and has
grown over it since. -/
lemma refresh_covers (hmark : Holds fmt files l)
    (h : (fmt.blocks.file l.rows).length < idx.indexedSize ∨
      ∃ indexed, Covers fmt idx l.rows indexed l.committed) :
    ∃ idx', idx.refresh fmt false files.markers (fmt.blocks.file l.rows) = (idx', none) ∧
      Covers fmt idx' l.rows l.rows l.committed := by
  -- a covering index that is as long as the file covers everything
  have hall : ∀ {idx : RangeIndex} {indexed : List (DurableBlock β)},
      Covers fmt idx l.rows indexed l.committed →
        (fmt.blocks.file l.rows).length = idx.indexedSize →
      Covers fmt idx l.rows l.rows l.committed := by
    intro idx indexed hcov hsize
    have heq : indexed = l.rows :=
      eq_of_length_file hcov.initial (prefix_refl _) (hcov.size ▸ hsize.symm)
    exact heq ▸ hcov
  unfold RangeIndex.refresh
  by_cases hsize : (fmt.blocks.file l.rows).length = idx.indexedSize
  · rw [if_pos hsize]
    rcases h with hlt | ⟨indexed, hcov⟩
    · exact absurd hsize hlt.ne
    · exact ⟨idx, rfl, hall hcov hsize⟩
  · rw [if_neg hsize]
    -- an index beyond the end of the file is dropped
    have hstart : ∃ indexed, Covers fmt
        (if (fmt.blocks.file l.rows).length < idx.indexedSize then {} else idx) l.rows indexed
        l.committed := by
      split
      · exact ⟨[], covers_empty fmt l.rows hl.placed⟩
      · next hge => exact h.resolve_left hge
    generalize (if (fmt.blocks.file l.rows).length < idx.indexedSize then ({} : RangeIndex)
      else idx) =
      start at hstart ⊢
    obtain ⟨indexed, hcov⟩ := hstart
    dsimp only
    split
    · next seeded hseeded =>
      split at hseeded
      · obtain ⟨indexed', hcov'⟩ := seed_covers hl hmark hseeded
        split
        · next hwhole => exact ⟨seeded, rfl, hall hcov' hwhole⟩
        · exact hcov'.scanFrom hl
      · cases hseeded
    · exact hcov.scanFrom hl

/-! ## Reading a range -/

lemma Consistent.height_block (hc : c ∈ l.committed) : c.block.height = c.stored.height := by
  obtain ⟨pre, post, hplaced⟩ := hl.placed c hc
  rw [← hplaced.restored, (hl.readable _ (hl.mem_rows hc)).fields.1]

lemma Consistent.sorted : (l.committed.map Committed.block).Pairwise fun b b' =>
    b.height < b'.height := by
  refine pairwise_map.2 (hl.increasing.imp_of_mem fun hc hc' hlt => ?_)
  rw [hl.height_block hc, hl.height_block hc']
  exact hlt

lemma readHeight_eq (h : Covers fmt idx l.rows l.rows l.committed) (height : Nat) :
    readHeight fmt false idx l.hashes (fmt.blocks.file l.rows) height =
      .ok ((l.committed.map Committed.block).filter fun b => b.height = height) := by
  -- the row of a marker is found under its height
  have hfinds : ∀ c ∈ l.committed, idx.offsets.find c.stored.height = some c.span := by
    intro c hc
    apply h.finds c hc
    obtain ⟨pre, post, hplaced⟩ := hl.placed c hc
    have hle := length_file_le (c := fmt.blocks)
      (⟨post, by simp [hplaced.rows_eq]⟩ : pre ++ [c.stored] <+: l.rows)
    rw [hplaced.sourceSize_eq, h.size]
    exact_mod_cast hle
  unfold readHeight
  cases hfind : idx.offsets.find height with
  | none =>
    refine congrArg Except.ok (filter_eq_nil_iff.2 fun b hb => ?_).symm
    obtain ⟨c, hc, rfl⟩ := mem_map.1 hb
    intro heq
    rw [← of_decide_eq_true heq, hl.height_block hc, hfinds c hc] at hfind
    cases hfind
  | some span =>
    obtain ⟨stored, hat, rfl⟩ := h.spans height span hfind
    -- a committed block at this height is the one of the row
    have hsame : ∀ c ∈ l.committed, c.block.height = stored.height → c.stored = stored := by
      intro c hc heq
      rw [hl.height_block hc] at heq
      obtain ⟨pre, post, hplaced⟩ := hl.placed c hc
      have hspan : c.span = span := Option.some.inj ((hfinds c hc).symm.trans (heq ▸ hfind))
      exact (hspan ▸ hplaced.at : At fmt l.rows span c.stored).unique hat
    obtain ⟨pre, post, hrows, rfl⟩ := hat
    have hmem : stored ∈ l.rows := hrows ▸ mem_append_right _ mem_cons_self
    have hreadable := hl.readable stored hmem
    have hline : ((fmt.blocks.file l.rows).drop (fmt.blocks.file pre).length).take
        (fmt.blocks.line stored).length = fmt.blocks.line stored := by
      rw [hrows, file_append, drop_left, file_cons, take_left]
    have hdec : decodeDurableBlockLine fmt false (dropNewline (fmt.blocks.line stored)) =
        .ok (fmt.restored stored) := by
      simpa [decodeDurableBlockLine, dropNewline, LineFormat.line] using hreadable.decodeBlock
    have hne : ¬ (fmt.restored stored).height ≠ stored.height := not_not.2 hreadable.fields.1
    simp only [hline, lt_irrefl, if_false, hdec, if_neg hne, Bool.false_eq_true, and_false,
      false_or, hreadable.fields.2]
    by_cases hmarked : stored.blockHash ∈ l.hashes
    · rw [if_pos hmarked]
      obtain ⟨c, hc, rfl⟩ := (hl.mem_hashes hmem).1 hmarked
      obtain ⟨pre', post', hplaced⟩ := hl.placed c hc
      rw [hplaced.restored]
      refine congrArg Except.ok (eq_of_height_lt (pairwise_singleton _ _) (hl.sorted.filter _) ?_)
      intro b
      rw [mem_singleton, mem_filter, mem_map, decide_eq_true_eq]
      constructor
      · rintro rfl
        exact ⟨⟨c, hc, rfl⟩, hl.height_block hc⟩
      · rintro ⟨⟨c', hc', rfl⟩, heq⟩
        obtain ⟨pre, post, hplaced'⟩ := hl.placed c' hc'
        rw [← hplaced'.restored, hsame c' hc' heq, hplaced.restored]
    · rw [if_neg hmarked]
      refine congrArg Except.ok (filter_eq_nil_iff.2 fun b hb => ?_).symm
      obtain ⟨c, hc, rfl⟩ := mem_map.1 hb
      exact fun heq => hmarked ((hl.mem_hashes hmem).2 ⟨c, hc, hsame c hc (of_decide_eq_true heq)⟩)

lemma readHeights_eq (h : Covers fmt idx l.rows l.rows l.committed) (start count : Nat) :
    readHeights fmt false idx l.hashes (fmt.blocks.file l.rows) (List.range' start count) =
      .ok ((l.committed.map Committed.block).filter fun b =>
        start ≤ b.height ∧ b.height < start + count) := by
  induction count generalizing start with
  | zero =>
    refine congrArg Except.ok (filter_eq_nil_iff.2 fun b _ => ?_).symm
    simp
  | succ count ih =>
    simp only [range'_succ, readHeights, readHeight_eq hl h start, ih (start + 1)]
    refine congrArg Except.ok (eq_of_height_lt ?_ (hl.sorted.filter _) fun b => ?_)
    · refine pairwise_append.2 ⟨hl.sorted.filter _, hl.sorted.filter _, fun b hb b' hb' => ?_⟩
      have hht := of_decide_eq_true (mem_filter.1 hb).2
      have hlater := of_decide_eq_true (mem_filter.1 hb').2
      omega
    · rw [mem_append, mem_filter, mem_filter, mem_filter, ← and_or_left]
      refine and_congr_right fun _ => ?_
      simp only [decide_eq_true_eq]
      omega

end

end ChainLab.Storage
