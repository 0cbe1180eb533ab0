import ChainLab.Block.Digest
import ChainLab.Data.Quorum
import ChainLab.Data.Result
import ChainLab.Execution.SerialExecutor

/-!
# Certificates of a Porygon batch

The shards that execute a block each send a result.  A certificate carries one entry for each shard:
the result, and the attestations of the members of the shard's committee.  The code never compares
the block hash, height and shard of an entry's result with those of the certificate, and it counts
the entries without asking whether they are of different shards.  `Bound` is what it leaves out.
-/

namespace ChainLab.Porygon

open List Result

structure BatchTxResult where
  txID : String
  receipt : Execution.Receipt
  delta : Execution.TxDelta

structure BatchResult where
  blockHash : String
  height : Nat
  executionShardID : String
  committeeEpochDigest : String := ""
  senderNodeID : String := ""
  results : List BatchTxResult := []
  stateRoot : String := ""
  deferredPartitions : List String := []
  resultDigest : String := ""
  businessExecutionUS : Int := 0

structure BatchAttestation where
  nodeID : String
  blockHash : String
  height : Nat
  executionShardID : String
  committeeEpochDigest : String
  resultDigest : String
  signature : String

structure CertificateEntry where
  executionShardID : String
  resultDigest : String
  threshold : Nat
  voters : List String
  attestations : List BatchAttestation
  result : BatchResult

structure BatchCertificate where
  blockHash : String
  height : Nat
  committeeEpochDigest : String := ""
  leaderNodeID : String := ""
  entries : List CertificateEntry := []
  certificateDigest : String := ""

structure CertificateIdentity where
  blockHash : String
  height : Nat
  committeeEpochDigest : String
  entries : List (String × String)

/-- The name of the node and what it calls: the digest and the JSON text of each record, the keys of
the validators and the check of a signature, the seed of a committee epoch and the members of a
committee. -/
structure Node where
  nodeID : String
  stableTextDigest : String → String
  jsonResult : BatchResult → String
  jsonAttestation : BatchAttestation → String
  jsonCertificate : BatchCertificate → String
  jsonIdentity : CertificateIdentity → String
  pbftPublicKey : String → Except String (List Nat)
  decodeString : String → Except String (List Nat)
  verify : (key : List Nat) → (message : String) → (signature : List Nat) → Bool
  committeeEpochSeed : Nat → String
  executionRoleMembers : (height : Nat) → (shard : String) → List String

def shardedExecutionResultThreshold (memberCount : Nat) : Nat :=
  if memberCount < 1 then 1 else memberCount / 2 + 1

/-- A loop that takes every name at most once and returns the names it has seen. -/
def eachOnce {α : Type} (name : α → String) (fits : α → Prop) [DecidablePred fits]
    (refused : α → String) (check : α → Except String Unit) (items : List α) :
    Except String (List String) :=
  items.foldlM (fun seen item => do
    require (name item ∉ seen ∧ fits item) (refused item)
    check item
    return name item :: seen) []

namespace Node

variable (r : Node)

def escBatchResultDigest (result : BatchResult) : String :=
  r.stableTextDigest (r.jsonResult { result with
    senderNodeID := "", resultDigest := "", businessExecutionUS := 0
    results := result.results.insertionSort fun a b => a.txID ≤ b.txID
    deferredPartitions := result.deferredPartitions.insertionSort (· ≤ ·) })

def batchAttestationBytes (att : BatchAttestation) : String :=
  r.jsonAttestation { att with signature := "" }

/-- The signature check of `verifyPorygonBatchAttestation`. -/
def checkSignature (att : BatchAttestation) : Except String Unit := do
  let key ← r.pbftPublicKey att.nodeID
  let sig ← r.decodeString att.signature
  require (r.verify key (r.batchAttestationBytes att) sig)
    s!"porygon batch attestation signature invalid for {att.nodeID}"

def verifyBatchAttestation (result : BatchResult) (att : BatchAttestation) :
    Except String Unit := do
  require (att.blockHash = result.blockHash ∧ att.height = result.height ∧
      att.executionShardID = result.executionShardID ∧
      att.committeeEpochDigest = result.committeeEpochDigest ∧
        att.resultDigest = result.resultDigest)
    "porygon batch attestation identity mismatch"
  r.checkSignature att

def batchCertDigest (cert : BatchCertificate) : String :=
  let entries := cert.entries.map fun entry =>
    { entry with
      voters := entry.voters.insertionSort (· ≤ ·)
      attestations := entry.attestations.insertionSort fun a b => a.nodeID ≤ b.nodeID }
  r.stableTextDigest (r.jsonCertificate { cert with
    certificateDigest := ""
    entries := entries.insertionSort fun a b => a.executionShardID ≤ b.executionShardID })

/-- The body of the loop over the entries in `validatePorygonBatchCertificate`. -/
def validateEntry (height : Nat) (required : List String) (entry : CertificateEntry) :
    Except String Unit := do
  let shard := entry.executionShardID
  require (shard ∈ required ∧ entry.resultDigest = entry.result.resultDigest ∧
    entry.resultDigest = r.escBatchResultDigest entry.result)
      "porygon batch certificate entry mismatch"
  let members := r.executionRoleMembers height shard
  let threshold := shardedExecutionResultThreshold members.length
  require (entry.threshold = threshold)
    s!"porygon sharded ESC result threshold mismatch for {shard}: got={entry.threshold} want={threshold}"
  let _ ← eachOnce id (· = shard)
    (fun id => s!"invalid Porygon deferred partition evidence \"{id}\" for ESC {shard}")
    (fun _ => pure ()) entry.result.deferredPartitions
  require (entry.result.senderNodeID ∈ members)
    s!"invalid Porygon batch representative {entry.result.senderNodeID}"
  require (threshold ≤ entry.voters.length)
    s!"porygon sharded ESC strict-majority not met for {shard}"
  let declared ← eachOnce id (· ∈ members)
    (fun voter => s!"invalid Porygon batch declared voter {voter}") (fun _ => pure ()) entry.voters
  let seen ← eachOnce BatchAttestation.nodeID (fun att => att.nodeID ∈ members ∧
    att.nodeID ∈ declared)
    (fun att => s!"invalid Porygon batch voter {att.nodeID}")
      (r.verifyBatchAttestation entry.result)
    entry.attestations
  require (seen.length = declared.length)
    s!"porygon batch voter/attestation set mismatch for {shard}"
  require (entry.result.senderNodeID ∈ seen)
    s!"porygon batch representative attestation missing for {shard}"
  require (threshold ≤ seen.length)
    s!"porygon sharded ESC authenticated strict-majority not met for {shard}"

def validateBatchCertificate (cert : BatchCertificate) (requiredShards : List String) :
    Except String Unit := do
  require (cert.blockHash ≠ "" ∧ cert.height ≠ 0 ∧ cert.certificateDigest = r.batchCertDigest cert ∧
    cert.committeeEpochDigest = r.committeeEpochSeed cert.height)
    "porygon batch certificate identity/digest mismatch"
  require (cert.entries.length = requiredShards.dedup.length)
    "porygon batch certificate shard coverage mismatch"
  cert.entries.forM (r.validateEntry cert.height requiredShards)

end Node

/-- The certificate has one entry for a shard at most, and every result is of the certificate's
block and of the shard of its entry. -/
structure Bound (cert : BatchCertificate) : Prop where
  once : (cert.entries.map CertificateEntry.executionShardID).Nodup
  result : ∀ entry ∈ cert.entries, entry.result.blockHash = cert.blockHash ∧
    entry.result.height = cert.height ∧ entry.result.executionShardID = entry.executionShardID

/-! ## What an accepted certificate shows -/

section

variable {r : Node} {cert : BatchCertificate} {entry : CertificateEntry} {required : List String}

lemma eachOnce_eq_ok {α : Type} {name : α → String} {fits : α → Prop} [DecidablePred fits]
    {refused : α → String} {check : α → Except String Unit} {items : List α} {seen : List String} :
    eachOnce name fits refused check items = .ok seen ↔ seen = (items.map name).reverse ∧
      (items.map name).Nodup ∧ ∀ item ∈ items, fits item ∧ check item = .ok () := by
  induction items using List.reverseRecOn generalizing seen with
  | nil => exact ⟨fun h => by cases h; simp, fun h => h.1 ▸ rfl⟩
  | append_singleton items item ih =>
    unfold eachOnce at ih ⊢
    simp only [foldlM_append, foldlM_cons, foldlM_nil, bind_pure, bind_eq_ok, require_eq_ok, ih]
    constructor
    · rintro ⟨_, ⟨rfl, hnd, hitems⟩, _, ⟨hnew, hfits⟩, _, hcheck, hseen⟩
      cases hseen
      refine ⟨by simp, ?_, forall_mem_append.2 ⟨hitems, forall_mem_singleton.2 ⟨hfits, hcheck⟩⟩⟩
      rw [map_append, map_singleton, ← concat_eq_append]
      exact hnd.concat (by simpa using hnew)
    · rintro ⟨rfl, hnd, hall⟩
      rw [map_append, map_singleton, ← concat_eq_append, nodup_concat] at hnd
      obtain ⟨hitems, hlast⟩ := forall_mem_append.1 hall
      obtain ⟨hfits, hcheck⟩ := forall_mem_singleton.1 hlast
      exact ⟨_, ⟨rfl, hnd.2, hitems⟩, (), ⟨by simpa using hnd.1, hfits⟩, (), hcheck, by simp; rfl⟩

/-- The part of an entry's check on which its meaning rests. -/
structure Attested (r : Node) (height : Nat) (entry : CertificateEntry) : Prop where
  digest : entry.resultDigest = entry.result.resultDigest ∧
    entry.resultDigest = r.escBatchResultDigest entry.result
  distinct : (entry.attestations.map BatchAttestation.nodeID).Nodup
  member : ∀ att ∈ entry.attestations,
    att.nodeID ∈ r.executionRoleMembers height entry.executionShardID
  verified : ∀ att ∈ entry.attestations, r.verifyBatchAttestation entry.result att = .ok ()
  majority : shardedExecutionResultThreshold
    (r.executionRoleMembers height entry.executionShardID).length ≤ entry.attestations.length

lemma attested_of_validateEntry {height : Nat}
    (h : r.validateEntry height required entry = .ok ()) :
    entry.executionShardID ∈ required ∧ Attested r height entry := by
  simp only [Node.validateEntry, bind_eq_ok, require_eq_ok] at h
  obtain ⟨_, ⟨hshard, hdig⟩, _, -, _, -, _, -, _, -, _, -, seen, hseen, _, -, _, -, hmajority⟩ := h
  obtain ⟨rfl, hnd, hatts⟩ := eachOnce_eq_ok.1 hseen
  exact ⟨hshard, {
    digest := hdig
    distinct := hnd
    member := fun att hatt => (hatts att hatt).1.1
    verified := fun att hatt => (hatts att hatt).2
    majority := by simpa using hmajority }⟩

/-- An accepted certificate has as many entries as there are required shards, all of required
shards. -/
structure Accepted (r : Node) (cert : BatchCertificate) (required : List String) : Prop where
  epoch : cert.committeeEpochDigest = r.committeeEpochSeed cert.height
  length : cert.entries.length = required.dedup.length
  entry : ∀ entry ∈ cert.entries, entry.executionShardID ∈ required ∧ Attested r cert.height entry

lemma accepted_of_validate (h : r.validateBatchCertificate cert required = .ok ()) :
    Accepted r cert required := by
  simp only [Node.validateBatchCertificate, bind_eq_ok, require_eq_ok] at h
  obtain ⟨_, ⟨-, -, -, hepoch⟩, _, hlen, hents⟩ := h
  exact ⟨hepoch, hlen, fun entry hent => attested_of_validateEntry (forM_eq_ok.1 hents entry hent)⟩

lemma Accepted.count_eq_one_iff (h : Accepted r cert required) :
    (∀ shard ∈ required, (cert.entries.map CertificateEntry.executionShardID).count shard = 1) ↔
      (cert.entries.map CertificateEntry.executionShardID).Nodup := by
  set shards := cert.entries.map CertificateEntry.executionShardID with hshards
  have hsub : ∀ shard ∈ shards, shard ∈ required := by
    intro shard hshard
    obtain ⟨entry, hent, rfl⟩ := mem_map.1 hshard
    exact (h.entry entry hent).1
  have hlen : shards.length = required.toFinset.card := by
    rw [length_map, h.length, card_toFinset]
  constructor
  · intro hcount
    exact nodup_iff_count_le_one.2 fun shard =>
      (Nat.eq_zero_or_pos _).elim (fun hzero => hzero ▸ Nat.zero_le 1)
        fun hpos => (hcount shard (hsub shard (count_pos_iff.1 hpos))).le
  · intro hnd shard hshard
    have hall : shards.toFinset = required.toFinset :=
      Finset.eq_of_subset_of_card_le (fun shard hs => by simpa using hsub shard (by simpa using hs))
        (by rw [toFinset_card_of_nodup hnd, hlen])
    have hmem : shard ∈ shards := by
      rw [← mem_toFinset, hall]
      exact mem_toFinset.2 hshard
    exact count_eq_one_of_mem hnd hmem

lemma lt_two_mul_threshold (n : Nat) : n < 2 * shardedExecutionResultThreshold n := by
  unfold shardedExecutionResultThreshold
  split <;> omega

end

/-! ## What the certificate proves -/

def Unforgeable (r : Node) (signed : (node message : String) → Prop) : Prop :=
  ∀ att, r.checkSignature att = .ok () → signed att.nodeID (r.batchAttestationBytes att)

/-- The attestation is of the certificate's block, of the entry's shard and of the entry's
result. -/
structure Attests (r : Node) (cert : BatchCertificate) (entry : CertificateEntry)
    (att : BatchAttestation) : Prop where
  blockHash : att.blockHash = cert.blockHash
  height : att.height = cert.height
  shard : att.executionShardID = entry.executionShardID
  digest : att.resultDigest = r.escBatchResultDigest entry.result

/-- A strict majority of the shard's committee signed the entry's result for the certificate's
block. -/
def MajoritySigned (r : Node) (signed : (node message : String) → Prop) (cert : BatchCertificate)
    (entry : CertificateEntry) : Prop :=
  ∃ voters ⊆ (r.executionRoleMembers cert.height entry.executionShardID).toFinset,
    (r.executionRoleMembers cert.height entry.executionShardID).length < 2 * voters.card ∧
    ∀ voter ∈ voters, ∃ att ∈ entry.attestations, att.nodeID = voter ∧ Attests r cert entry att ∧
      signed voter (r.batchAttestationBytes att)

/-- Every required shard has one entry, and each entry was signed by a majority. -/
def Authentic (r : Node) (signed : (node message : String) → Prop) (cert : BatchCertificate)
    (required : List String) : Prop :=
  (∀ shard ∈ required, (cert.entries.map CertificateEntry.executionShardID).count shard = 1) ∧
    ∀ entry ∈ cert.entries, MajoritySigned r signed cert entry

section Authentic

variable {r : Node} {signed : (node message : String) → Prop} {cert : BatchCertificate}
  {entry : CertificateEntry} {required : List String}

lemma verifyBatchAttestation_eq_ok {result : BatchResult} {att : BatchAttestation} :
    r.verifyBatchAttestation result att = .ok () ↔ (att.blockHash = result.blockHash ∧
      att.height = result.height ∧ att.executionShardID = result.executionShardID ∧
      att.committeeEpochDigest = result.committeeEpochDigest ∧
      att.resultDigest = result.resultDigest) ∧ r.checkSignature att = .ok () := by
  rw [Node.verifyBatchAttestation, require_bind_eq_ok]

lemma Attested.majoritySigned (h : Attested r cert.height entry) (hsign : Unforgeable r signed)
    (hbound : entry.result.blockHash = cert.blockHash ∧ entry.result.height = cert.height ∧
      entry.result.executionShardID = entry.executionShardID) :
    MajoritySigned r signed cert entry := by
  refine ⟨(entry.attestations.map BatchAttestation.nodeID).toFinset, ?_, ?_, ?_⟩
  · intro voter hvoter
    obtain ⟨att, hatt, rfl⟩ := mem_map.1 (mem_toFinset.1 hvoter)
    exact mem_toFinset.2 (h.member att hatt)
  · calc (r.executionRoleMembers cert.height entry.executionShardID).length
        < 2 * shardedExecutionResultThreshold
          (r.executionRoleMembers cert.height entry.executionShardID).length :=
            lt_two_mul_threshold _
      _ ≤ 2 * entry.attestations.length := Nat.mul_le_mul_left 2 h.majority
      _ = 2 * (entry.attestations.map BatchAttestation.nodeID).toFinset.card := by
            rw [toFinset_card_of_nodup h.distinct, length_map]
  · intro voter hvoter
    obtain ⟨att, hatt, rfl⟩ := mem_map.1 (mem_toFinset.1 hvoter)
    rcases verifyBatchAttestation_eq_ok.1 (h.verified att hatt)
        with ⟨⟨hblk, hht, hshard, -, hdig⟩, hsig⟩
    exact ⟨att, hatt, rfl, ⟨hblk.trans hbound.1, hht.trans hbound.2.1, hshard.trans hbound.2.2,
      hdig.trans (h.digest.1.symm.trans h.digest.2)⟩, hsign att hsig⟩

/-- An accepted certificate authenticates its block exactly when its entries are of different shards
and their results are of its block. -/
theorem certificate_authentic_iff (hsigned : Unforgeable r signed)
    (h : r.validateBatchCertificate cert required = .ok ()) :
    Authentic r signed cert required ↔ Bound cert := by
  have haccepted := accepted_of_validate h
  constructor
  · rintro ⟨honce, hmajority⟩
    refine ⟨haccepted.count_eq_one_iff.1 honce, fun entry hentry => ?_⟩
    obtain ⟨voters, -, hlarge, hvoters⟩ := hmajority entry hentry
    -- a majority has a member, and its attestation was compared with the result
    obtain ⟨voter, hvoter⟩ : voters.Nonempty := Finset.card_pos.1 (by omega)
    obtain ⟨att, hatt, -, hattests, -⟩ := hvoters voter hvoter
    rcases verifyBatchAttestation_eq_ok.1 ((haccepted.entry entry hentry).2.verified att hatt) with
      ⟨⟨hblock, hheight, hshard, -⟩, -⟩
    exact ⟨hblock.symm.trans hattests.blockHash, hheight.symm.trans hattests.height,
      hshard.symm.trans hattests.shard⟩
  · intro hbound
    exact ⟨haccepted.count_eq_one_iff.2 hbound.once, fun entry hentry =>
      (haccepted.entry entry hentry).2.majoritySigned hsigned (hbound.result entry hentry)⟩

end Authentic

/-! ## Committees of three nodes -/

section Sample

open Digest

/-- Records are written out field by field.  A signature is good for the messages of `signed`. -/
def plainNode (signed : List (List Nat × String)) : Node where
  nodeID := "n0"
  stableTextDigest := id
  jsonResult result := String.ofList (encodeList encodeString result.deferredPartitions ++
    (encodeNat result.height ++ encodeList encodeString ([result.blockHash, result.executionShardID,
      result.committeeEpochDigest, result.senderNodeID, result.stateRoot, result.resultDigest] ++
      result.results.map BatchTxResult.txID)))
  jsonAttestation att := String.ofList (encodeNat att.height ++ encodeList encodeString
    [att.nodeID, att.blockHash, att.executionShardID, att.committeeEpochDigest, att.resultDigest,
      att.signature])
  jsonCertificate cert := String.ofList (encodeNat cert.height ++ encodeList encodeString
    ([cert.blockHash, cert.committeeEpochDigest, cert.leaderNodeID] ++ cert.entries.flatMap
      fun entry =>
      entry.executionShardID :: entry.resultDigest :: entry.voters))
  jsonIdentity identity := String.ofList (encodeNat identity.height ++ encodeList encodeString
    ([identity.blockHash, identity.committeeEpochDigest] ++
      identity.entries.flatMap fun row => [row.1, row.2]))
  pbftPublicKey nodeID := .ok (nodeID.toList.map Char.toNat)
  decodeString _ := .ok []
  verify key message _ := (key, message) ∈ signed
  committeeEpochSeed _ := "epoch"
  executionRoleMembers _ _ := ["n0", "n1", "n2"]

/-- The result that `sender` has for a shard of block `a`. -/
def resultOf (shard sender : String) : BatchResult :=
  let result : BatchResult := {
    blockHash := "a", height := 1, executionShardID := shard, committeeEpochDigest := "epoch"
    senderNodeID := sender, stateRoot := "r" }
  { result with resultDigest := (plainNode []).escBatchResultDigest result }

def attestationOf (shard sender : String) : BatchAttestation :=
  ⟨sender, "a", 1, shard, "epoch", (resultOf shard sender).resultDigest, ""⟩

/-- Two of the three nodes have signed the results of block `a`, and nothing else. -/
def signedOf : List (List Nat × String) :=
  ["s0", "s1"].flatMap fun shard => ["n0", "n1"].map fun node =>
    (node.toList.map Char.toNat, (plainNode []).batchAttestationBytes (attestationOf shard node))

def sampleNode : Node :=
  plainNode signedOf

def Signed (node message : String) : Prop :=
  (node.toList.map Char.toNat, message) ∈ signedOf

/-- The certificate of a block, with the results of block `a` as its entries. -/
def certificateFor (blockHash : String) : BatchCertificate :=
  let cert : BatchCertificate := {
    blockHash := blockHash, height := 1, committeeEpochDigest := "epoch", leaderNodeID := "n0"
    entries := ["s0", "s1"].map fun shard => {
      executionShardID := shard, resultDigest := (resultOf shard "n0").resultDigest, threshold := 2
      voters := ["n0", "n1"], attestations := ["n0", "n1"].map (attestationOf shard)
      result := resultOf shard "n0" } }
  { cert with certificateDigest := sampleNode.batchCertDigest cert }

lemma sampleNode_unforgeable : Unforgeable sampleNode Signed := by
  intro att h
  simp only [Node.checkSignature, bind_eq_ok, require_eq_ok] at h
  obtain ⟨_, hkey, _, -, hverify⟩ := h
  cases hkey
  have hmem : (att.nodeID.toList.map Char.toNat, sampleNode.batchAttestationBytes att) ∈ signedOf :=
    of_decide_eq_true hverify
  exact hmem

theorem certificate_authentic_own :
    Authentic sampleNode Signed (certificateFor "a") ["s0", "s1"] :=
  (certificate_authentic_iff sampleNode_unforgeable (by decide +kernel)).2
    ⟨by decide, by simp [certificateFor, resultOf]⟩

/-- The results of block `a` are accepted in a certificate of block `b`. -/
theorem certificate_replayed :
    sampleNode.validateBatchCertificate (certificateFor "b") ["s0", "s1"] = .ok () ∧
      ¬ Authentic sampleNode Signed (certificateFor "b") ["s0", "s1"] := by
  refine ⟨by decide +kernel, fun h => ?_⟩
  obtain ⟨voters, -, hlarge, hvoters⟩ := h.2 _ mem_cons_self
  obtain ⟨voter, hvoter⟩ : voters.Nonempty := Finset.card_pos.1 (by omega)
  obtain ⟨att, hatt, -, hattests, -⟩ := hvoters voter hvoter
  have hblock : att.blockHash = "a" := by
    obtain ⟨node, -, rfl⟩ := mem_map.1 hatt
    rfl
  exact absurd (hblock.symm.trans hattests.blockHash) (by decide)

end Sample

end ChainLab.Porygon
