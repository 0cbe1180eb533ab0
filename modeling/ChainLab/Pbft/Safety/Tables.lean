import ChainLab.Pbft.Core.Invariant
import ChainLab.Pbft.World

/-!
# What the tables of a node contain

The votes, view changes and certificates in the tables of a replica state were signed by the nodes
they name.  Each table has its own statement here, with one lemma for each way the handlers change
it.  PREPARE and COMMIT votes are kept in the same two tables, so they share theirs.
-/

namespace ChainLab.Pbft

open List GoMap

/-! ## What has been sent, as the abstract machine sees it -/

structure VoteKind (α : Type) where
  view : α → Nat
  sequence : α → Nat
  height : α → Nat
  nodeID : α → String
  blockHash : α → String
  message : α → Message

def prepareKind : VoteKind Prepare :=
  ⟨Prepare.view, Prepare.sequence, Prepare.height, Prepare.nodeID, Prepare.blockHash, .prepare⟩

def commitKind : VoteKind Commit :=
  ⟨Commit.view, Commit.sequence, Commit.height, Commit.nodeID, Commit.blockHash, .commit⟩

section Sent

variable {α : Type}

def VoteKind.toVote (k : VoteKind α) (vote : α) : Core.Vote String String :=
  ⟨k.nodeID vote, k.view vote, k.height vote, k.blockHash vote⟩

def sentVotes (k : VoteKind α) (sent : List Message) : Set (Core.Vote String String) :=
  {x | ∃ vote, k.message vote ∈ sent ∧ k.toVote vote = x}

def PreparedCertificate.toReport (cert : PreparedCertificate) : Core.Report String :=
  ⟨cert.view, cert.height, cert.blockHash⟩

def ViewChange.toChange (vc : ViewChange) : Core.Change String String :=
  ⟨vc.nodeID, vc.newView, vc.prepared.map PreparedCertificate.toReport⟩

def sentChanges (sent : List Message) : Set (Core.Change String String) :=
  {c | ∃ vc, .viewChange vc ∈ sent ∧ vc.toChange = c}

lemma sentVotes_mono (k : VoteKind α) {sent sent' : List Message} (h : sent ⊆ sent') :
    sentVotes k sent ⊆ sentVotes k sent' := by
  rintro x ⟨vote, hmem, rfl⟩
  exact ⟨vote, h hmem, rfl⟩

end Sent

/-! ## Votes -/

section

variable {α : Type} {k : VoteKind α} {K : Core.Committee String} {sent sent' : List Message}
  {view : Nat} {locked : GoMap String Block} {votes : GoMap String (GoMap String α)}
  {early : GoMap Slot (GoMap String α)}

/-- A vote of a validator in a view, signed by it. -/
structure Genuine (k : VoteKind α) (K : Core.Committee String) (sent : List Message) (view : Nat)
    (vote : α) : Prop where
  view_eq : k.view vote = view
  sequence_eq : k.sequence vote = k.height vote
  validator : k.nodeID vote ∈ K.replicas
  signed : k.nodeID vote ∈ K.faulty ∨ k.message vote ∈ sent

/-- The tables of counted and of early votes hold genuine votes, filed where they belong. -/
structure SoundVotes (k : VoteKind α) (K : Core.Committee String) (sent : List Message) (view : Nat)
    (locked : GoMap String Block) (votes : GoMap String (GoMap String α))
    (early : GoMap Slot (GoMap String α)) : Prop where
  counted : ∀ blockHash node vote, (votes.get blockHash).find node = some vote →
    k.nodeID vote = node ∧ k.blockHash vote = blockHash ∧ Genuine k K sent view vote ∧
      ∃ b, locked.find blockHash = some b ∧ b.height = k.height vote
  early : ∀ slot node vote, (early.get slot).find node = some vote →
    k.nodeID vote = node ∧ slot = (view, k.height vote) ∧ Genuine k K sent view vote

variable {vote : α}

lemma Genuine.mono (h : Genuine k K sent view vote) (hsub : sent ⊆ sent') :
    Genuine k K sent' view vote :=
  { h with signed := h.signed.imp_right fun hmem => hsub hmem }

variable {blockHash : String}

lemma SoundVotes.supported (h : SoundVotes k K sent view locked votes early)
    {b : Block} (hb : locked.find blockHash = some b)
    (hquor : K.quorum ≤ (votes.get blockHash).len) :
    Core.Supported K (sentVotes k sent) view b.height blockHash := by
  refine ⟨(votes.get blockHash).keySet, ?_, ?_, ?_⟩
  · intro node hnode
    obtain ⟨vote, hvote⟩ := mem_keySet.1 hnode
    obtain ⟨rfl, -, hgen, -⟩ := h.counted _ _ _ hvote
    exact hgen.validator
  · rwa [card_keySet]
  · intro node hnode hcorr
    obtain ⟨vote, hvote⟩ := mem_keySet.1 hnode
    obtain ⟨rfl, rfl, hgen, b', hb', hht⟩ := h.counted _ _ _ hvote
    cases hb.symm.trans hb'
    exact ⟨vote, hgen.signed.resolve_left hcorr, by
      simp [VoteKind.toVote, hgen.view_eq, hht]⟩

variable {certified : List α}

lemma supported_of_votes {height : Nat}
    (hquor : K.quorum ≤ certified.length) (hnd : (certified.map k.nodeID).Nodup)
    (hvotes : ∀ vote ∈ certified, k.nodeID vote ∈ K.replicas ∧
      (k.nodeID vote ∈ K.faulty ∨ k.message vote ∈ sent) ∧ k.view vote = view ∧
      k.height vote = height ∧ k.blockHash vote = blockHash) :
    Core.Supported K (sentVotes k sent) view height blockHash := by
  refine ⟨(certified.map k.nodeID).toFinset, ?_, ?_, ?_⟩
  · intro node hnode
    obtain ⟨vote, hvote, rfl⟩ := mem_map.1 (mem_toFinset.1 hnode)
    exact (hvotes vote hvote).1
  · rwa [toFinset_card_of_nodup hnd, length_map]
  · intro node hnode hcorr
    obtain ⟨vote, hvote, rfl⟩ := mem_map.1 (mem_toFinset.1 hnode)
    obtain ⟨-, hsign, rfl, rfl, rfl⟩ := hvotes vote hvote
    exact ⟨vote, hsign.resolve_left hcorr, rfl⟩

namespace SoundVotes

lemma empty : SoundVotes k K sent view locked ∅ ∅ := by
  constructor
  · intro blockHash node vote h
    simp [GoMap.get] at h
  · intro slot node vote h
    simp [GoMap.get] at h

section

variable (h : SoundVotes k K sent view locked votes early)

include h

lemma mono (hsub : sent ⊆ sent') : SoundVotes k K sent' view locked votes early := by
  constructor
  · intro blockHash node vote hvote
    obtain ⟨hnode, hhash, hgen, hb⟩ := h.counted _ _ _ hvote
    exact ⟨hnode, hhash, hgen.mono hsub, hb⟩
  · intro slot node vote hvote
    obtain ⟨hnode, hslot, hgen⟩ := h.early _ _ _ hvote
    exact ⟨hnode, hslot, hgen.mono hsub⟩

lemma record (hgen : Genuine k K sent view vote)
    (hb : ∃ b, locked.find (k.blockHash vote) = some b ∧ b.height = k.height vote) :
    SoundVotes k K sent view locked (votes.putIn (k.blockHash vote) (k.nodeID vote) vote)
      early := by
  refine ⟨?_, h.early⟩
  intro blockHash node vote' hvote
  obtain ⟨rfl, rfl, rfl⟩ | hvote := of_find_putIn hvote
  · exact ⟨rfl, rfl, hgen, hb⟩
  · exact h.counted _ _ _ hvote

lemma buffer (hgen : Genuine k K sent view vote) : SoundVotes k K sent view locked votes
      (early.putIn (slotKey (k.view vote) (k.sequence vote)) (k.nodeID vote) vote) := by
  refine ⟨h.counted, ?_⟩
  intro slot node vote' hvote
  obtain ⟨rfl, rfl, rfl⟩ | hvote := of_find_putIn hvote
  · exact ⟨rfl, by rw [slotKey, hgen.view_eq, hgen.sequence_eq], hgen⟩
  · exact h.early _ _ _ hvote

lemma replay {b : Block} (hsame : ∀ b', locked.find blockHash = some b' → b'.height = b.height)
    {accept : String → α → Bool} (haccept : ∀ node vote, accept node vote = true →
      k.blockHash vote = blockHash) :
    SoundVotes k K sent view (locked.put blockHash b)
      (votes.putAllIn blockHash ((early.get (slotKey view b.height)).retain accept) id)
      (early.delete (slotKey view b.height)) := by
  -- a block that was locked before keeps its height
  have hkeep : ∀ other height, (∃ b', locked.find other = some b' ∧ b'.height = height) →
      ∃ b', (locked.put blockHash b).find other = some b' ∧ b'.height = height := by
    rintro other height ⟨b', hb', rfl⟩
    by_cases heq : other = blockHash
    · subst heq
      exact ⟨b, find_put_self _ _ _, (hsame b' hb').symm⟩
    · exact ⟨b', by rwa [find_put_ne _ _ heq], rfl⟩
  constructor
  · intro other node vote hvote
    rw [find_get_putAllIn] at hvote
    have hold : (votes.get other).find node = some vote → k.nodeID vote = node ∧
        k.blockHash vote = other ∧ Genuine k K sent view vote ∧
        ∃ b', (locked.put blockHash b).find other = some b' ∧ b'.height = k.height vote := by
      intro hvote
      obtain ⟨hnode, hhash, hgen, hb⟩ := h.counted _ _ _ hvote
      exact ⟨hnode, hhash, hgen, hkeep _ _ hb⟩
    split at hvote
    · rename_i heq
      subst heq
      rcases Option.or_eq_some_iff.1 hvote with hnew | ⟨-, hvote⟩
      · rw [Option.map_id, id, find_retain_eq_some] at hnew
        obtain ⟨hnode, hslot, hgen⟩ := h.early _ _ _ hnew.1
        refine ⟨hnode, haccept _ _ hnew.2, hgen, b, find_put_self _ _ _, ?_⟩
        exact (Prod.mk.inj hslot).2
      · exact hold hvote
    · exact hold hvote
  · intro slot node vote hvote
    rw [get_delete] at hvote
    split at hvote
    · cases hvote
    · exact h.early _ _ _ hvote

lemma release (keep : String → Bool) {early' : GoMap Slot (GoMap String α)}
    (hearly : ∀ slot node vote, (early'.get slot).find node = some vote →
      (early.get slot).find node = some vote) :
    SoundVotes k K sent view (locked.retain fun blockHash _ => keep blockHash)
      (votes.retain fun blockHash _ => keep blockHash) early' := by
  constructor
  · intro blockHash node vote hvote
    obtain ⟨hvote, hkeep⟩ := find_get_retain hvote
    obtain ⟨hnode, hhash, hgen, b, hb, hht⟩ := h.counted _ _ _ hvote
    exact ⟨hnode, hhash, hgen, b, find_retain_eq_some.2 ⟨hb, hkeep⟩, hht⟩
  · intro slot node vote hvote
    exact h.early _ _ _ (hearly _ _ _ hvote)

end

end SoundVotes

lemma exists_correct_vote (hquor : K.quorum ≤ certified.length)
    (hnd : (certified.map k.nodeID).Nodup) (hval : ∀ vote ∈ certified, k.nodeID vote ∈ K.replicas) :
    ∃ vote ∈ certified, k.nodeID vote ∉ K.faulty := by
  have hsub : (certified.map k.nodeID).toFinset ⊆ K.replicas := by
    intro node hnode
    obtain ⟨vote, hvote, rfl⟩ := mem_map.1 (mem_toFinset.1 hnode)
    exact hval vote hvote
  have hcard : (certified.map k.nodeID).toFinset.card = certified.length := by
    rw [toFinset_card_of_nodup hnd, length_map]
  have hmany : K.replicas.card + K.faulty.card <
      (certified.map k.nodeID).toFinset.card + (certified.map k.nodeID).toFinset.card := by
    have := K.intersecting
    omega
  obtain ⟨node, hnode, -, hcorr⟩ := Quorum.exists_common_correct hsub hsub hmany
  obtain ⟨vote, hvote, rfl⟩ := mem_map.1 (mem_toFinset.1 hnode)
  exact ⟨vote, hvote, hcorr⟩

end

/-! ## Locks -/

section

variable {hash : BlockCore → String} {view : Nat} {locked locked' : GoMap String Block}
  {slots slots' : GoMap Slot String} {prepared prepared' : GoMap Nat PreparedCertificate}

/-- The locks are of the current view, on blocks of their height, and agree with what is
prepared. -/
structure SoundLocks (hash : BlockCore → String) (view : Nat) (locked : GoMap String Block)
    (slots : GoMap Slot String) (prepared : GoMap Nat PreparedCertificate) : Prop where
  block : ∀ blockHash b, locked.find blockHash = some b →
    blockHash ≠ "" ∧ b.blockHash = blockHash ∧ hash b.toBlockCore = blockHash
  slot : ∀ slot blockHash, slots.find slot = some blockHash → slot.1 = view ∧
    ∃ b, locked.find blockHash = some b ∧ b.height = slot.2
  agree : ∀ height blockHash cert, slots.find (view, height) = some blockHash →
    prepared.find height = some cert → cert.blockHash = blockHash

namespace SoundLocks

lemma empty : SoundLocks hash view ∅ ∅ ∅ := by
  constructor <;> simp

section

variable (h : SoundLocks hash view locked slots prepared)

include h

lemma lock {b : Block} (hne : b.blockHash ≠ "") (hdig : hash b.toBlockCore = b.blockHash)
    (hinj : Function.Injective hash)
    (hprep : ∀ cert, prepared.find b.height = some cert → cert.blockHash = b.blockHash) :
    SoundLocks hash view (locked.put b.blockHash b)
      (slots.put (slotKey view b.height) b.blockHash) prepared := by
  constructor
  · intro blockHash b' hb'
    obtain ⟨rfl, rfl⟩ | hb' := of_find_put hb'
    · exact ⟨hne, rfl, hdig⟩
    · exact h.block _ _ hb'
  · intro slot blockHash hfind
    obtain ⟨rfl, rfl⟩ | hfind := of_find_put hfind
    · exact ⟨rfl, b, find_put_self _ _ _, rfl⟩
    obtain ⟨hview, b', hb', hht⟩ := h.slot slot blockHash hfind
    refine ⟨hview, ?_⟩
    by_cases heq : blockHash = b.blockHash
    · -- the digest fixes the block up to its body
      subst heq
      have hcore : b'.toBlockCore = b.toBlockCore := hinj ((h.block _ _ hb').2.2.trans hdig.symm)
      refine ⟨b, find_put_self _ _ _, ?_⟩
      rw [← hht, ← (congrArg BlockCore.height hcore : b'.height = b.height)]
    · exact ⟨b', by rwa [find_put_ne _ _ heq], hht⟩
  · intro height blockHash cert hfind hcert
    obtain ⟨heq, rfl⟩ | hfind := of_find_put hfind
    · cases (Prod.mk.inj heq).2
      exact hprep cert hcert
    · exact h.agree _ _ _ hfind hcert

lemma certify {cert : PreparedCertificate}
    (hlock : slots.find (view, cert.height) = some cert.blockHash) :
    SoundLocks hash view locked slots (prepared.put cert.height cert) := by
  refine { h with agree := ?_ }
  intro height blockHash cert' hfind hcert
  obtain ⟨rfl, rfl⟩ | hcert := of_find_put hcert
  · exact Option.some.inj (hlock.symm.trans hfind)
  · exact h.agree _ _ _ hfind hcert

lemma release (hlck : ∀ blockHash b, locked'.find blockHash = some b →
    locked.find blockHash = some b) (hslots : ∀ slot blockHash, slots'.find slot = some blockHash →
      slots.find slot = some blockHash ∧ ∀ b, locked.find blockHash = some b →
        locked'.find blockHash = some b) (hprepared : ∀ height cert,
          prepared'.find height = some cert →
      prepared.find height = some cert) : SoundLocks hash view locked' slots' prepared' := by
  constructor
  · intro blockHash b hb
    exact h.block _ _ (hlck _ _ hb)
  · intro slot blockHash hfind
    obtain ⟨hold, hkeep⟩ := hslots _ _ hfind
    obtain ⟨hview, b, hb, hht⟩ := h.slot _ _ hold
    exact ⟨hview, b, hkeep b hb, hht⟩
  · intro height blockHash cert hfind hcert
    exact h.agree _ _ _ (hslots _ _ hfind).1 (hprepared _ _ hcert)

end

end SoundLocks

end

end ChainLab.Pbft
