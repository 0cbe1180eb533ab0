import ChainLab.Storage.Durable

/-!
# Proposal evidence on disk

A stored block is a JSON line, and `json.Marshal` rewrites the raw message in it: it takes out
white space and escapes `<`, `>` and `&`.  This leaves the wrapper of a compressed payload alone,
but not every payload that is stored as it is; and a payload that looks like a wrapper is taken for
one.
-/

namespace ChainLab.Storage

variable {β : Type} (z : Compression)

/-- A block that is written and read back, none if it cannot be written. -/
def storedAndRestored (b : DurableBlock β) : Option (Except RestoreError (DurableBlock β)) :=
  ((blockForDurableStorage z b).bind z.row).map (restoreBlockFromDurableStorage z)

def Compressed (payload : Bytes) : Prop :=
  durableProposalCompressionThreshold ≤ payload.length ∧
    payload.length ≤ durableProposalMaximumSemanticBytes ∧ (z.wrap payload).length < payload.length

/-- The text does not read as a wrapper with a codec. -/
def Unwrapped (text : Bytes) : Prop :=
  ∀ wrapper, z.decode text = some wrapper → wrapper.codec = ""

/-- The text is a wrapper of the payload, which has the digest of the evidence. -/
def WrapperOf (text : Bytes) (evidence : ProposalEvidence) : Prop :=
  text ≠ [] ∧ ∃ gzipped, z.decode text = some ⟨durableProposalPayloadCodec, durableProposalEncoding,
      evidence.payload.length, z.sha256 evidence.payload, gzipped⟩ ∧
    z.gunzip gzipped = some evidence.payload ∧
    (evidence.payloadDigest = "" ∨ evidence.payloadDigest = z.sha256 evidence.payload)

/-- Evidence that comes back.  A payload is stored compressed or as it is; in the second case the
line has to leave it alone, and it must not be taken for a wrapper, unless it is one of itself. -/
def Kept (evidence : ProposalEvidence) : Prop :=
  evidence.payload = [] ∨
  (Compressed z evidence.payload ∧
    (evidence.payloadDigest = "" ∨ evidence.payloadDigest = z.sha256 evidence.payload)) ∨
  (¬ Compressed z evidence.payload ∧ evidence.payload.length ≤ durableProposalMaximumSemanticBytes ∧
    (RawJson.marshal z.valid evidence.payload = some evidence.payload ∧
        Unwrapped z evidence.payload ∨
      ∃ text, RawJson.marshal z.valid evidence.payload = some text ∧ WrapperOf z text evidence))

variable {z} {evidence : ProposalEvidence} {text : Bytes}

lemma restore_eq_ok_iff {b : DurableBlock β} {evidence' : ProposalEvidence}
    (hevid : b.evidence = some evidence) :
    restoreBlockFromDurableStorage z { b with evidence := some evidence' } = .ok b ↔
      restorePayload z evidence' = .ok evidence := by
  cases b
  cases hevid
  cases hread : restorePayload z evidence' with
  | error err | ok restored => simp [restoreBlockFromDurableStorage, hread]

lemma with_payload_eq_iff : ({ evidence with payload := text } : ProposalEvidence) = evidence ↔
    text = evidence.payload := by
  cases evidence
  simp

/-- Which text of a line is read as the payload. -/
lemma restorePayload_eq_ok_iff (hpos : evidence.payload ≠ [])
    (hmax : evidence.payload.length ≤ durableProposalMaximumSemanticBytes) :
    restorePayload z { evidence with payload := text } = .ok evidence ↔
      text = evidence.payload ∧ Unwrapped z text ∨ WrapperOf z text evidence := by
  have hcodec : durableProposalPayloadCodec ≠ "" := by decide
  have hlen : 0 < evidence.payload.length := List.length_pos_iff.2 hpos
  by_cases htext : text = []
  · simp [restorePayload, htext, WrapperOf, with_payload_eq_iff, hpos.symm]
  rw [restorePayload, if_neg htext]
  cases hdec : z.decode text with
  | none => simp [WrapperOf, Unwrapped, hdec, with_payload_eq_iff]
  | some wrapper =>
    obtain ⟨codec, encoding, size, digest, gzipped⟩ := wrapper
    by_cases hempty : codec = ""
    · simp [WrapperOf, Unwrapped, hdec, with_payload_eq_iff, hempty, hcodec.symm]
    have hwrapped : ¬ Unwrapped z text := fun h => hempty (h _ hdec)
    simp only [hempty, if_false, hwrapped, and_false, false_or]
    constructor
    · -- every check of the wrapper is passed
      intro h
      split_ifs at h with h₁ h₂ h₃
      split at h
      · cases h
      next data hdata =>
      split_ifs at h with h₄ h₅ h₆
      have hpayload := with_payload_eq_iff.1 (Except.ok.inj h)
      rw [hpayload] at h₄ h₅ h₆
      have hall : data = evidence.payload := by
        rw [← hpayload, List.take_of_length_le]
        have hlen' := congrArg List.length hpayload
        rw [List.length_take] at hlen'
        omega
      refine ⟨htext, gzipped, ?_, hall ▸ hdata, ?_⟩
      · rw [hdec, not_not.1 h₁, not_not.1 h₂, ← not_not.1 h₄, ← not_not.1 h₅]
      · simpa [Classical.or_iff_not_imp_left] using h₆
    · rintro ⟨-, gzipped', hwrapper, hgunzip, hdigest⟩
      rw [hdec] at hwrapper
      cases hwrapper
      have hsize : ¬ ((evidence.payload.length : Int) < 1 ∨
          (durableProposalMaximumSemanticBytes : Int) < (evidence.payload.length : Int)) := by
        omega
      have htake : evidence.payload.take (durableProposalMaximumSemanticBytes + 1) =
          evidence.payload :=
        List.take_of_length_le (hmax.trans (Nat.le_succ _))
      have hagrees : ¬ (evidence.payloadDigest ≠ "" ∧
          evidence.payloadDigest ≠ z.sha256 evidence.payload) := by
        simpa [Classical.or_iff_not_imp_left] using hdigest
      simp only [hgunzip, hsize, htake, hagrees, if_false, ne_eq, not_true]

lemma Compressed.ne_nil {payload : Bytes} (h : Compressed z payload) : payload ≠ [] := by
  rintro rfl
  exact absurd h.1 (by decide)

lemma wrapperOf_wrap : WrapperOf z (z.wrap evidence.payload) evidence ↔
    evidence.payloadDigest = "" ∨ evidence.payloadDigest = z.sha256 evidence.payload := by
  simp [WrapperOf, Compression.wrap, z.encode_ne_nil, z.decode_encode, z.gunzip_gzip]

lemma not_unwrapped_wrap (payload : Bytes) : ¬ Unwrapped z (z.wrap payload) := by
  intro h
  have hcodec : durableProposalPayloadCodec = "" := h _ (z.decode_encode _)
  exact absurd hcodec (by decide)

/-- A payload that is stored as it is. -/
lemma row_restores_iff {b : DurableBlock β} (hevid : b.evidence = some evidence)
    (hmax : evidence.payload.length ≤ durableProposalMaximumSemanticBytes) :
    (z.row b).map (restoreBlockFromDurableStorage z) = some (.ok b) ↔ evidence.payload = [] ∨
      (RawJson.marshal z.valid evidence.payload = some evidence.payload ∧
          Unwrapped z evidence.payload ∨
        ∃ text, RawJson.marshal z.valid evidence.payload = some text ∧
          WrapperOf z text evidence) := by
  simp only [Compression.row, hevid]
  split
  next hnil =>
    have hb : b = { b with evidence := some evidence } := by rw [← hevid]
    have hsame : restorePayload z evidence = .ok evidence := if_pos hnil
    have hread : restoreBlockFromDurableStorage z b = .ok b := by
      simp only [restoreBlockFromDurableStorage, hevid, hsame]
      exact congrArg Except.ok hb.symm
    simp [hread, hnil]
  next hne =>
    cases hmarshal : RawJson.marshal z.valid evidence.payload with
    | none => simp [hne]
    | some text =>
      rw [Option.map_some, Option.map_some, Option.some.injEq, restore_eq_ok_iff hevid,
        restorePayload_eq_ok_iff hne hmax]
      simp only [hne, false_or, Option.some.injEq, exists_eq_left']
      exact or_congr_left (and_congr_right fun heq => by rw [heq])

variable (z) in
/-- A block comes back from the store unchanged exactly if its evidence is kept. -/
theorem stored_block_restored_iff (b : DurableBlock β) : storedAndRestored z b = some (.ok b) ↔
    ∀ evidence, b.evidence = some evidence → Kept z evidence := by
  cases hevid : b.evidence with
  | none =>
    simp [storedAndRestored, blockForDurableStorage, Compression.row,
      restoreBlockFromDurableStorage, hevid]
  | some evidence =>
    simp only [Option.some.injEq, forall_eq', storedAndRestored, Kept]
    by_cases hzip : Compressed z evidence.payload
    · have hstored : blockForDurableStorage z b = some
          { b with evidence := some { evidence with payload := z.wrap evidence.payload } } := by
        simp only [blockForDurableStorage, hevid]
        rw [if_neg hzip.1.not_gt, if_neg hzip.2.1.not_gt, if_neg hzip.2.2.not_ge]
      have hrow :
          z.row { b with evidence := some { evidence with payload := z.wrap evidence.payload } } =
          some { b with evidence := some { evidence with payload := z.wrap evidence.payload } } := by
        simp [Compression.row, Compression.wrap, z.encode_ne_nil, z.marshal_encode]
      rw [hstored, Option.bind_some, hrow, Option.map_some, Option.some.injEq,
        restore_eq_ok_iff hevid, restorePayload_eq_ok_iff hzip.ne_nil hzip.2.1, wrapperOf_wrap]
      simp [hzip, hzip.ne_nil, not_unwrapped_wrap]
    · have hstored : blockForDurableStorage z b =
          if evidence.payload.length ≤ durableProposalMaximumSemanticBytes then some b
            else none := by
        have hthr : durableProposalCompressionThreshold ≤ durableProposalMaximumSemanticBytes := by
          decide
        unfold Compressed at hzip
        simp only [blockForDurableStorage, hevid]
        grind
      rw [hstored]
      split
      next hmax => simpa [hzip, hmax] using row_restores_iff hevid hmax
      next hmax =>
        have hnil : evidence.payload ≠ [] := fun hnil => hmax (by simp [hnil])
        simp [hzip, hmax, hnil]

-- the payload ` 1`
theorem spaced_payload_changed : storedAndRestored plainCompression
      { plainBlock 1 "h" with evidence := some ⟨"a", "", [32, 49]⟩ } =
    some (.ok { plainBlock 1 "h" with evidence := some ⟨"a", "", [49]⟩ }) := by
  rfl

end ChainLab.Storage
