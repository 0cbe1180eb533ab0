import ChainLab.Proposal.Binding

/-!
# Compact transport of proposals

The leader broadcasts a proposal without the bodies of its transactions.  A validator puts the
bodies back from its own mempool (`hydratePBFTCompactPrePrepare`), asks the leader for those it does
not have, and tries again when they arrive (`handlePBFTCompactTxResponse`).  Bodies are matched by
their identifiers, which do not cover the signatures.
-/

namespace ChainLab.Proposal

open List GoMap
open Proposal.Runtime

/-! ## Messages -/

structure PrePrepare where
  view : Nat := 0
  sequence : Nat := 0
  height : Nat := 0
  leaderID : String
  blockHash : String
  block : Block
  signature : String := ""

structure Envelope where
  fromNode : String
  height : Nat
  view : Nat
  sequence : Nat

structure CompactTxResponse where
  blockHash : String
  height : Nat
  view : Nat
  sequence : Nat
  leaderNodeID : String
  transactions : List Transaction

def compactPBFTPrePrepareForWire (pre : PrePrepare) : PrePrepare :=
  if pre.block.txList = [] ∨ pre.block.txIDs = [] then pre
  else { pre with block := { pre.block with txList := [] } }

/-! ## Hydration -/

structure PendingProposal where
  fromNode : String
  pre : PrePrepare
  bodies : GoMap String Transaction

structure Validator where
  pool : GoMap String Transaction
  pending : GoMap String PendingProposal

/-- What `hydratePBFTCompactPrePrepare` returns: the proposal as it came, the proposal with its
bodies put back, the identifiers of the bodies that were asked for, or an error. -/
inductive Hydrated where
  | complete (pre : PrePrepare)
  | reconstructed (pre : PrePrepare)
  | waiting (missing : List String)
  | error (err : String)

section Hydrate

variable (p : Primitives)

def repeatedOrBlank (seen : List String) : List String → Bool
  | [] => false
  | id :: ids =>
    if Text.trimSpace id = "" ∨ Text.trimSpace id ∈ seen then true
    else repeatedOrBlank (Text.trimSpace id :: seen) ids

def validatePBFTCompactBlockIdentity (pre : PrePrepare) : Option String :=
  firstError [fail (blank pre.blockHash ∨ pre.block.blockHash ≠ pre.blockHash)
        "compact proposal block hash identity mismatch",
      fail (hash p pre.block.toHeader ≠ pre.blockHash) "compact proposal block digest mismatch",
      fail (txRoot p pre.block.txIDs ≠ pre.block.txRoot)
        "compact proposal transaction root mismatch",
      fail (repeatedOrBlank [] pre.block.txIDs)
        "compact proposal contains blank/duplicate transaction id"]

def lookupMany (pool : GoMap String Transaction) (txIDs : List String) : GoMap String Transaction :=
  pool.retain fun id _ => id ∈ txIDs

/-- The bodies at hand for a proposal: those that were kept with it come before the mempool's. -/
def Validator.bodiesFor (v : Validator) (pre : PrePrepare) : GoMap String Transaction :=
  let found := lookupMany v.pool pre.block.txIDs
  match v.pending.find pre.blockHash with
  | some existing => existing.bodies ∪ found
  | none => found

/-- `hydratePBFTCompactPrePrepare`; `sent` tells whether the request for missing bodies went out. -/
def Validator.hydratePBFTCompactPrePrepare (v : Validator) (fromNode : String) (pre : PrePrepare)
    (sent : Bool) : Validator × Hydrated :=
  if pre.block.txIDs = [] ∨ pre.block.txList ≠ [] then (v, .complete pre)
  else
    match validatePBFTCompactBlockIdentity p pre with
    | some err => (v, .error err)
    | none =>
      if fromNode = "" ∨ fromNode ≠ pre.leaderID then
        (v, .error "compact proposal source/leader mismatch")
      else
        let bodies := v.bodiesFor pre
        let missing := pre.block.txIDs.filter fun id => (bodies.find id).isNone
        if missing = [] then
          let txList := pre.block.txIDs.filterMap bodies.find
          ({ v with pending := v.pending.delete pre.blockHash },
            .reconstructed { pre with block := { pre.block with txList := txList } })
        else
          ({ v with pending := v.pending.put pre.blockHash ⟨fromNode, pre, bodies⟩ },
            if sent then .waiting missing else .error "send failed")

/-- The loop of `handlePBFTCompactTxResponse`; the bodies before an error stay. -/
def addBodies (txIDs : List String) (bodies : GoMap String Transaction) :
    List Transaction → GoMap String Transaction × Option String
  | [] => (bodies, none)
  | item :: items =>
    if item.txID ∉ txIDs then
      (bodies, some "compact body response contains transaction outside proposal")
    else if (bodies.find item.txID).isSome then addBodies txIDs bodies items
    else
      match verify p item with
      | some err =>
        (bodies, some ("compact body response transaction " ++ item.txID ++
          " failed verification: " ++ err))
      | none => addBodies txIDs (bodies.put item.txID item) items

/-- `handlePBFTCompactTxResponse`, up to the proposal that it hands on. -/
def Validator.handlePBFTCompactTxResponse (v : Validator) (msg : Envelope)
    (response : CompactTxResponse) (sent : Bool) : Validator × Hydrated :=
  match v.pending.find response.blockHash with
  | none => (v, .error "compact body response has no pending proposal")
  | some pending =>
    let pre := pending.pre
    if msg.fromNode ≠ pre.leaderID ∨ response.leaderNodeID ≠ pre.leaderID ∨
        msg.fromNode ≠ response.leaderNodeID then
      (v, .error "compact body response source/leader mismatch")
    else if msg.height ≠ pre.height ∨ msg.view ≠ pre.view ∨ msg.sequence ≠ pre.sequence ∨
        response.height ≠ pre.height ∨ response.view ≠ pre.view ∨
        response.sequence ≠ pre.sequence then
      (v, .error "compact body response slot mismatch")
    else
      let added := addBodies p pre.block.txIDs pending.bodies response.transactions
      let stored := { v with
        pending := v.pending.put response.blockHash { pending with bodies := added.1 } }
      match added.2 with
      | some err => (stored, .error err)
      | none => stored.hydratePBFTCompactPrePrepare p pending.fromNode pre sent

end Hydrate

/-! ## Runs -/

/-- What happens at a validator: transactions enter and leave its mempool, proposals and bodies
arrive, in any order and any number of times. -/
inductive Event where
  | admitTx (item : Transaction)
  | drop (txID : String)
  | proposal (fromNode : String) (pre : PrePrepare) (sent : Bool)
  | response (msg : Envelope) (response : CompactTxResponse) (sent : Bool)

/-- The bodies that come with an event. -/
def Event.transactions : Event → List Transaction
  | .response _ reply _ => reply.transactions
  | _ => []

/-- The block that an event is about. -/
def Event.blockHash : Event → String
  | .proposal _ pre _ => pre.blockHash
  | .response _ reply _ => reply.blockHash
  | _ => ""

namespace Validator

/-- The body that a validator holds for an identifier, or is handed with the event: one that was
kept with the proposal comes first, then one of the response, then that of the mempool. -/
def bodyFor (v : Validator) (event : Event) (id : String) : Option Transaction :=
  (((v.pending.find event.blockHash).bind fun proposal => proposal.bodies.find id).or
    (event.transactions.find? fun item => item.txID = id)).or (v.pool.find id)

variable (p : Primitives)

/-- The mempool takes in only what passes `Verify`, and it keeps the body that it has. -/
def admitTx (v : Validator) (item : Transaction) : Validator :=
  if verify p item = none ∧ v.pool.find item.txID = none then
    { v with pool := v.pool.put item.txID item }
  else v

def step (v : Validator) : Event → Validator × Option Hydrated
  | .admitTx item => (v.admitTx p item, none)
  | .drop txID => ({ v with pool := v.pool.delete txID }, none)
  | .proposal fromNode pre sent =>
    let (v', hydrated) := v.hydratePBFTCompactPrePrepare p fromNode pre sent
    (v', some hydrated)
  | .response msg response sent =>
    let (v', hydrated) := v.handlePBFTCompactTxResponse p msg response sent
    (v', some hydrated)

def run (v : Validator) (events : List Event) : Validator :=
  events.foldl (fun v event => (v.step p event).1) v

def start : Validator :=
  ⟨∅, ∅⟩

end Validator

/-! ## Bodies at a validator -/

/-- Bodies under their own identifiers, all of which pass `Verify`. -/
def Authentic (p : Primitives) (bodies : GoMap String Transaction) : Prop :=
  ∀ id t, bodies.find id = some t → t.txID = id ∧ verify p t = none

lemma find_union (bodies bodies' : GoMap String Transaction) (id : String) :
    (bodies ∪ bodies').find id = (bodies.find id).or (bodies'.find id) := by
  by_cases hid : id ∈ bodies
  · obtain ⟨t, ht⟩ := Option.isSome_iff_exists.1 (AList.lookup_isSome.2 hid)
    have hleft : bodies.find id = some t := ht
    rw [hleft]
    exact (AList.lookup_union_left hid).trans ht
  · have hnone : bodies.find id = none := AList.lookup_eq_none.2 hid
    rw [hnone]
    exact AList.lookup_union_right hid

namespace Authentic

variable {p : Primitives} {bodies bodies' : GoMap String Transaction}

lemma empty : Authentic p ∅ := by
  intro id t h
  simp at h

section

variable (h : Authentic p bodies)

include h

lemma put {t : Transaction} (ht : verify p t = none) : Authentic p (bodies.put t.txID t) := by
  intro id t' hfind
  obtain ⟨hid, rfl⟩ | hfind := of_find_put hfind
  · exact ⟨hid.symm, ht⟩
  · exact h id t' hfind

lemma delete (id : String) : Authentic p (bodies.delete id) := by
  intro id' t hfind
  exact h id' t (of_find_delete hfind)

lemma lookupMany (txIDs : List String) : Authentic p (lookupMany bodies txIDs) := by
  intro id t hfind
  obtain ⟨hfind, -⟩ := find_retain_eq_some.1 hfind
  exact h id t hfind

lemma union (h' : Authentic p bodies') : Authentic p (bodies ∪ bodies') := by
  intro id t hfind
  rw [find_union] at hfind
  rcases Option.or_eq_some_iff.1 hfind with hleft | ⟨-, hright⟩
  · exact h id t hleft
  · exact h' id t hright

lemma addBodies (txIDs : List String) (items : List Transaction) :
    Authentic p (addBodies p txIDs bodies items).1 := by
  induction items generalizing bodies with
  | nil => exact h
  | cons item items ih =>
    unfold Proposal.addBodies
    split
    · exact h
    split
    · exact ih h
    split
    · exact h
    · rename_i hverify
      exact ih (h.put hverify)

end

end Authentic

/-- What a validator holds is authentic, and a proposal that waits for bodies is kept under its
hash. -/
structure Validator.Sound (p : Primitives) (v : Validator) : Prop where
  pool : Authentic p v.pool
  pending : ∀ hash proposal, v.pending.find hash = some proposal →
    proposal.pre.blockHash = hash ∧ Authentic p proposal.bodies

/-- A proposal whose bodies were put back: the header is that of the compact one, and the bodies are
verified and stand under the identifiers of the header. -/
structure Rebuilt (p : Primitives) (full : PrePrepare) : Prop where
  ids : transactionIDs full.block.txList = full.block.txIDs
  verified : ∀ t ∈ full.block.txList, verify p t = none

namespace Validator

variable {p : Primitives} {v : Validator}

/-- What hydration can do: keep the validator as it is, keep the proposal with its bodies, or put
the proposal together. -/
inductive Hydrates (v : Validator) (fromNode : String) (pre : PrePrepare) :
    Validator × Hydrated → Prop
  | unchanged {out : Hydrated} : (∀ full, out ≠ .reconstructed full) →
      Hydrates v fromNode pre (v, out)
  | kept {out : Hydrated} : (∀ full, out ≠ .reconstructed full) →
    Hydrates v fromNode pre
      ({ v with pending := v.pending.put pre.blockHash ⟨fromNode, pre, v.bodiesFor pre⟩ }, out)
  | rebuilt : (∀ id ∈ pre.block.txIDs, (v.bodiesFor pre).find id ≠ none) → Hydrates v fromNode pre
      ({ v with pending := v.pending.delete pre.blockHash }, .reconstructed { pre with
        block := { pre.block with txList := pre.block.txIDs.filterMap (v.bodiesFor pre).find } })

lemma hydrate_cases (v : Validator) (fromNode : String) (pre : PrePrepare) (sent : Bool) :
    v.Hydrates fromNode pre (v.hydratePBFTCompactPrePrepare p fromNode pre sent) := by
  unfold hydratePBFTCompactPrePrepare
  split
  · exact .unchanged nofun
  split
  · exact .unchanged nofun
  split
  · exact .unchanged nofun
  simp only
  split
  next hmiss =>
    refine .rebuilt fun id hid hnone => ?_
    have hkeep := filter_eq_nil_iff.1 hmiss id hid
    simp [hnone] at hkeep
  next => exact .kept (by cases sent <;> exact nofun)

/-- A response is refused, or its bodies join those that are kept with the proposal; if all of them
pass, the proposal is tried again. -/
lemma response_cases (v : Validator) (msg : Envelope) (response : CompactTxResponse) (sent : Bool) :
    ((v.handlePBFTCompactTxResponse p msg response sent).1 = v ∧
      ∀ full, (v.handlePBFTCompactTxResponse p msg response sent).2 ≠ .reconstructed full) ∨
    ∃ pending, v.pending.find response.blockHash = some pending ∧
      let added := addBodies p pending.pre.block.txIDs pending.bodies response.transactions
      let stored := { v with
        pending := v.pending.put response.blockHash { pending with bodies := added.1 } }
      (∃ err, v.handlePBFTCompactTxResponse p msg response sent = (stored, .error err)) ∨
        added.2 = none ∧ v.handlePBFTCompactTxResponse p msg response sent =
          stored.hydratePBFTCompactPrePrepare p pending.fromNode pending.pre sent := by
  unfold handlePBFTCompactTxResponse
  split
  next => exact .inl ⟨rfl, nofun⟩
  next pending hpend =>
    simp only
    split
    · exact .inl ⟨rfl, nofun⟩
    split
    · exact .inl ⟨rfl, nofun⟩
    refine .inr ⟨pending, hpend, ?_⟩
    split
    next err herr => exact .inl ⟨err, rfl⟩
    next hadded => exact .inr ⟨hadded, rfl⟩

lemma Sound.start : Sound p start where
  pool := .empty
  pending := fun hash proposal h => by simp [Validator.start] at h

lemma filterMap_find_ids {bodies : GoMap String Transaction} (h : Authentic p bodies)
    {txIDs : List String} (hall : ∀ id ∈ txIDs, bodies.find id ≠ none) :
    transactionIDs (txIDs.filterMap bodies.find) = txIDs := by
  induction txIDs with
  | nil => rfl
  | cons id txIDs ih =>
    obtain ⟨t, ht⟩ := Option.ne_none_iff_exists'.1 (hall id mem_cons_self)
    have hrest := ih fun id' hid' => hall id' (mem_cons_of_mem _ hid')
    simp only [filterMap_cons, ht]
    exact congrArg₂ List.cons (h id t ht).1 hrest

lemma step_proposal (v : Validator) (fromNode : String) (pre : PrePrepare) (sent : Bool) :
    (v.step p (.proposal fromNode pre sent)).2 =
      some (v.hydratePBFTCompactPrePrepare p fromNode pre sent).2 := rfl

section

variable (h : v.Sound p)

include h

lemma Sound.bodiesFor (pre : PrePrepare) : Authentic p (v.bodiesFor pre) := by
  unfold Validator.bodiesFor
  split
  · rename_i existing hexisting
    exact (h.pending _ _ hexisting).2.union (h.pool.lookupMany _)
  · exact h.pool.lookupMany _

lemma Sound.put {hash : String} (proposal : PendingProposal) (hbodies : Authentic p proposal.bodies)
    (hpre : proposal.pre.blockHash = hash) :
    Sound p { v with pending := v.pending.put hash proposal } where
  pool := h.pool
  pending := by
    intro hash' proposal' hfind
    obtain ⟨rfl, rfl⟩ | hfind := of_find_put hfind
    · exact ⟨hpre, hbodies⟩
    · exact h.pending hash' proposal' hfind

/-- Hydration keeps the bodies authentic, and what it puts together has authentic bodies. -/
lemma hydrate_spec (fromNode : String) (pre : PrePrepare) (sent : Bool) :
    (v.hydratePBFTCompactPrePrepare p fromNode pre sent).1.Sound p ∧
      ∀ full, (v.hydratePBFTCompactPrePrepare p fromNode pre sent).2 = .reconstructed full →
        Rebuilt p full := by
  have hbodies := h.bodiesFor pre
  have hcases := hydrate_cases (p := p) v fromNode pre sent
  generalize v.hydratePBFTCompactPrePrepare p fromNode pre sent = out at hcases
  cases hcases with
  | unchanged hout => exact ⟨h, fun full hfull => absurd hfull (hout full)⟩
  | kept hout => exact ⟨h.put _ hbodies rfl, fun full hfull => absurd hfull (hout full)⟩
  | rebuilt hall =>
    refine ⟨⟨h.pool, fun hash' proposal' hfind => h.pending _ _ (of_find_delete hfind)⟩, ?_⟩
    rintro full ⟨⟩
    refine ⟨filterMap_find_ids hbodies hall, fun t ht => ?_⟩
    obtain ⟨id, -, hid⟩ := mem_filterMap.1 ht
    exact (hbodies id t hid).2

lemma response_spec (msg : Envelope) (response : CompactTxResponse) (sent : Bool) :
    (v.handlePBFTCompactTxResponse p msg response sent).1.Sound p ∧
      ∀ full, (v.handlePBFTCompactTxResponse p msg response sent).2 = .reconstructed full →
        Rebuilt p full := by
  rcases response_cases (p := p) v msg response sent with ⟨hsame, hout⟩ | ⟨pending, hpend, hrest⟩
  · exact ⟨hsame.symm ▸ h, fun full hfull => absurd hfull (hout full)⟩
  obtain ⟨hpre, hbodies⟩ := h.pending _ _ hpend
  have hstored := h.put ⟨pending.fromNode, pending.pre, _⟩
    (hbodies.addBodies pending.pre.block.txIDs response.transactions) hpre
  rcases hrest with ⟨err, herr⟩ | ⟨-, hagain⟩
  · rw [herr]
    exact ⟨hstored, nofun⟩
  · rw [hagain]
    exact hydrate_spec hstored pending.fromNode pending.pre sent

lemma step_spec (event : Event) : (v.step p event).1.Sound p ∧
      ∀ full, (v.step p event).2 = some (.reconstructed full) → Rebuilt p full := by
  cases event with
  | admitTx item =>
    refine ⟨?_, nofun⟩
    simp only [step, admitTx]
    split
    · rename_i hadm
      exact ⟨h.pool.put hadm.1, h.pending⟩
    · exact h
  | drop txID => exact ⟨⟨h.pool.delete txID, h.pending⟩, nofun⟩
  | proposal fromNode pre sent =>
    have hspec := hydrate_spec h fromNode pre sent
    exact ⟨hspec.1, fun full hfull => hspec.2 full (Option.some.inj hfull)⟩
  | response msg response sent =>
    have hspec := response_spec h msg response sent
    exact ⟨hspec.1, fun full hfull => hspec.2 full (Option.some.inj hfull)⟩

lemma run_sound (events : List Event) : (v.run p events).Sound p :=
  List.foldlRecOn events _ h fun _ hv event _ => (step_spec hv event).1

end

/-! ## The bodies that are put in -/

lemma hydrate_txList {fromNode : String} {pre full : PrePrepare} {sent : Bool}
    (h : (v.hydratePBFTCompactPrePrepare p fromNode pre sent).2 = .reconstructed full) :
    full.block.txIDs = pre.block.txIDs ∧
      full.block.txList = pre.block.txIDs.filterMap (v.bodiesFor pre).find ∧
      ∀ id ∈ pre.block.txIDs, (v.bodiesFor pre).find id ≠ none := by
  have hcases := hydrate_cases (p := p) v fromNode pre sent
  generalize v.hydratePBFTCompactPrePrepare p fromNode pre sent = out at h hcases
  cases hcases with
  | unchanged hout | kept hout => exact absurd h (hout full)
  | rebuilt hall =>
    cases h
    exact ⟨rfl, rfl, hall⟩

lemma find_bodiesFor {pre : PrePrepare} {id : String} (hid : id ∈ pre.block.txIDs) :
    (v.bodiesFor pre).find id = ((v.pending.find pre.blockHash).bind fun proposal =>
      proposal.bodies.find id).or (v.pool.find id) := by
  have hpool : (lookupMany v.pool pre.block.txIDs).find id = v.pool.find id := by
    cases hfind : v.pool.find id <;> simp [lookupMany, find_retain, hid, hfind]
  unfold bodiesFor
  split
  · rename_i existing hexisting
    rw [find_union, hpool, hexisting, Option.bind_some]
  · rename_i hnone
    rw [hnone, hpool, Option.bind_none, Option.none_or]

/-- After a response without error, its bodies stand behind those that were there before. -/
lemma find_addBodies {txIDs : List String} {bodies : GoMap String Transaction}
    {items : List Transaction} (h : (addBodies p txIDs bodies items).2 = none) (id : String) :
    (addBodies p txIDs bodies items).1.find id =
      (bodies.find id).or (items.find? fun item => item.txID = id) := by
  induction items generalizing bodies with
  | nil => simp [addBodies]
  | cons item items ih =>
    unfold addBodies at h ⊢
    split at h
    · cases h
    rename_i hlisted
    rw [if_neg hlisted]
    by_cases hthere : (bodies.find item.txID).isSome = true
    · rw [if_pos hthere] at h ⊢
      rw [ih h]
      by_cases hid : item.txID = id
      · obtain ⟨t, ht⟩ := Option.isSome_iff_exists.1 hthere
        simp [← hid, ht]
      · simp [hid]
    · rw [if_neg hthere] at h ⊢
      split at h
      · cases h
      rename_i hverify
      rw [ih h, find_put]
      by_cases hid : item.txID = id
      · have hnone : bodies.find id = none := by
          rw [← hid]
          exact Option.not_isSome_iff_eq_none.1 hthere
        simp [hid, hnone]
      · simp [hid, Ne.symm hid]

/-- What is put together has, for each identifier, the body held for it or handed with the event. -/
lemma step_txList (hsound : v.Sound p) {event : Event} {full : PrePrepare}
    (h : (v.step p event).2 = some (.reconstructed full)) :
    full.block.txList = full.block.txIDs.filterMap (v.bodyFor event) ∧
      ∀ id ∈ full.block.txIDs, v.bodyFor event id ≠ none := by
  suffices hsame : ∃ ids, full.block.txIDs = ids ∧ ∃ bodies : GoMap String Transaction,
      full.block.txList = ids.filterMap bodies.find ∧ (∀ id ∈ ids, bodies.find id ≠ none) ∧
      ∀ id ∈ ids, bodies.find id = v.bodyFor event id by
    obtain ⟨ids, rfl, bodies, hlist, hall, hsame⟩ := hsame
    exact ⟨hlist.trans (filterMap_congr hsame), fun id hid => hsame id hid ▸ hall id hid⟩
  cases event with
  | admitTx | drop => cases h
  | proposal fromNode pre sent =>
    obtain ⟨hids, hlist, hall⟩ := hydrate_txList (Option.some.inj h)
    refine ⟨_, hids, _, hlist, hall, fun id hid => ?_⟩
    simp [find_bodiesFor hid, bodyFor, Event.blockHash, Event.transactions]
  | response msg response sent =>
    have h : (v.handlePBFTCompactTxResponse p msg response sent).2 = .reconstructed full :=
      Option.some.inj h
    rcases response_cases (p := p) v msg response sent with ⟨-, hout⟩ | ⟨pending, hpend, hrest⟩
    · exact absurd h (hout full)
    rcases hrest with ⟨err, herr⟩ | ⟨hadded, hagain⟩
    · rw [herr] at h
      cases h
    · rw [hagain] at h
      obtain ⟨hids, hlist, hall⟩ := hydrate_txList h
      refine ⟨_, hids, _, hlist, hall, fun id hid => ?_⟩
      rw [find_bodiesFor hid, (hsound.pending _ _ hpend).1, find_put_self, Option.bind_some,
        find_addBodies hadded]
      simp [bodyFor, Event.blockHash, Event.transactions, hpend]

/-- The bodies put in are the leader's exactly if the one at hand for each transaction is. -/
lemma filterMap_txID_eq_iff {f : String → Option Transaction} {items : List Transaction}
    (hall : ∀ id ∈ transactionIDs items, f id ≠ none) :
    (transactionIDs items).filterMap f = items ↔ ∀ t ∈ items, f t.txID = some t := by
  induction items with
  | nil => simp [transactionIDs]
  | cons item items ih =>
    obtain ⟨t, ht⟩ := Option.ne_none_iff_exists'.1 (hall item.txID (by simp [transactionIDs]))
    have hrest := ih fun id hid => hall id (by simp_all [transactionIDs])
    simp only [transactionIDs, map_cons, filterMap_cons, ht, forall_mem_cons, cons.injEq,
      Option.some.injEq] at hrest ⊢
    rw [hrest]

end Validator

/-- Whatever arrives, a validator stores verified bodies alone, and what it puts together consists
of those that the proposal lists. -/
theorem reconstructed_verified (p : Primitives) (events : List Event) (event : Event) :
    (Validator.start.run p events).Sound p ∧
      ∀ full, ((Validator.start.run p events).step p event).2 = some (.reconstructed full) →
        Rebuilt p full := by
  have hsound := Validator.run_sound (.start (p := p)) events
  exact ⟨hsound, (Validator.step_spec hsound event).2⟩

/-! ## Acceptance -/

variable {p : Primitives} {b b' : Block} {t : Transaction}

lemma transactionsDigest_injective (hfree : p.CollisionFree) :
    Function.Injective (transactionsDigest p) :=
  fun _ _ h => Json.list_injective Transaction.json_injective (hfree.digest_inj h)

lemma validateAria_txList (hfree : p.CollisionFree) {e e' : AriaCandidateSelectionEvidence}
    (hcand : e.candidateTransactions = e'.candidateTransactions)
    (hsel : e.selectedTxIDs = e'.selectedTxIDs)
    (h : validateAriaCandidateSelectionEvidence p b e = none)
    (h' : validateAriaCandidateSelectionEvidence p b' e' = none) : b.txList = b'.txList := by
  simp only [validateAriaCandidateSelectionEvidence, firstError_cons, fail_eq_none, ne_eq, not_not]
    at h h'
  apply transactionsDigest_injective hfree
  calc transactionsDigest p b.txList
      = transactionsDigest p (e.selectedTxIDs.filterMap (lookup e.candidateTransactions)) :=
        h.2.1.symm
    _ = transactionsDigest p (e'.selectedTxIDs.filterMap (lookup e'.candidateTransactions)) := by
        rw [hcand, hsel]
    _ = transactionsDigest p b'.txList := h'.2.1

lemma validateAriaWire_txList (hfree : p.CollisionFree) {w : AriaCandidateSelectionConsensusWire}
    (h : validateAriaWire p b w = none) (h' : validateAriaWire p b' w = none) :
    b.txList = b'.txList := by
  simp only [validateAriaWire, firstError_cons] at h h'
  have hval := h.2.2.2.2.1
  have hval' := h'.2.2.2.2.1
  have hcand :
      (w.reconstruct b).candidateTransactions = (w.reconstruct b').candidateTransactions := by
    simp only [validateAriaCandidateSelectionEvidence, firstError_cons, fail_eq_none, ne_eq,
      not_not] at hval hval'
    apply transactionsDigest_injective hfree
    calc transactionsDigest p (w.reconstruct b).candidateTransactions
        = w.candidatePayloadDigest := hval.2.2.2.1
      _ = transactionsDigest p (w.reconstruct b').candidateTransactions := hval'.2.2.2.1.symm
  exact validateAria_txList hfree hcand rfl hval hval'

namespace Runtime

variable {p : Primitives} {r : Runtime} {b b' : Block}

def DigestsBodies (r : Runtime) : Prop :=
  r.plugins.blockProducer = some .aria ∨ r.plugins.blockProducer = some .porygon

lemma decodeAria_txList (hfree : p.CollisionFree) (hevid : b.proposalEvidence = b'.proposalEvidence)
    (h : r.decodeAriaCandidateSelectionEvidence p b = none)
    (h' : r.decodeAriaCandidateSelectionEvidence p b' = none) : b.txList = b'.txList := by
  unfold decodeAriaCandidateSelectionEvidence at h h'
  rw [hevid] at h
  cases henv : b'.proposalEvidence with
  | none => simp [henv] at h
  | some envelope =>
    simp only [henv] at h h'
    split at h
    · cases h
    rename_i halg
    simp only [halg, if_false] at h'
    cases hvers : r.plugins.ariaWireVersion envelope.payload with
    | error err => simp [hvers] at h
    | ok version =>
      simp only [hvers] at h h'
      by_cases hlegacy : version = ""
      · simp only [hlegacy, if_true] at h h'
        cases hdec : r.plugins.ariaEvidence envelope.payload with
        | error err => simp [hdec] at h
        | ok e =>
          simp only [hdec] at h h'
          exact validateAria_txList hfree rfl rfl h h'
      · simp only [hlegacy, if_false] at h h'
        by_cases hwire : version = ariaCandidateSelectionConsensusWireVersion
        · simp only [hwire, ne_eq, not_true_eq_false, if_false] at h h'
          cases hdec : r.plugins.ariaWire envelope.payload with
          | error err => simp [hdec] at h
          | ok w =>
            simp only [hdec] at h h'
            exact validateAriaWire_txList hfree h h'
        · simp [hwire] at h

lemma evidence_txList (hfree : p.CollisionFree) (hdig : r.DigestsBodies)
    (hhead : b.toHeader = b'.toHeader) (hemp : b.txList = [] ↔ b'.txList = [])
    (h : r.verifyProposalEvidenceEnvelope p b = none)
    (h' : r.verifyProposalEvidenceEnvelope p b' = none) : b.txList = b'.txList := by
  by_cases hnil : b.txList = []
  · rw [hnil, hemp.1 hnil]
  have hnil' : b'.txList ≠ [] := fun h => hnil (hemp.2 h)
  have hevid : b.proposalEvidence = b'.proposalEvidence := congrArg (·.proposalEvidence) hhead
  rcases hdig with haria | hporygon
  · simp only [verifyProposalEvidenceEnvelope, haria, Option.some.injEq, reduceCtorEq, if_false,
      hevid] at h h'
    cases henv : b'.proposalEvidence with
    | none => simp [henv, hnil] at h
    | some envelope =>
      simp only [henv, checkEvidence, expectedAlgorithm, haria, if_true, firstError_cons] at h h'
      exact decodeAria_txList hfree hevid h.2.2.2.1 h'.2.2.2.1
  · simp only [verifyProposalEvidenceEnvelope, hporygon, if_true, verifyPorygonEvidence, hevid]
      at h h'
    cases henv : b'.proposalEvidence with
    | none => simp [henv] at h
    | some envelope =>
      simp only [henv, firstError_cons] at h h'
      cases hdigest : r.plugins.porygonFullBodyDigest envelope.payload with
      | error err => simp [hdigest] at h
      | ok bodyDigest =>
        simp only [hdigest, fail_eq_none, hnil, hnil', ne_eq, not_false_eq_true, true_and, not_not]
          at h h'
        exact transactionsDigest_injective hfree (h.2.2.2.1.trans h'.2.2.2.1.symm)

lemma evidence_same (hdig : ¬ r.DigestsBodies) (hhead : b.toHeader = b'.toHeader)
    (hemp : b.txList = [] ↔ b'.txList = []) :
    r.verifyProposalEvidenceEnvelope p b = r.verifyProposalEvidenceEnvelope p b' := by
  have hporygon : ¬ r.plugins.blockProducer = some .porygon := fun h => hdig (.inr h)
  have haria : ¬ r.plugins.blockProducer = some .aria := fun h => hdig (.inl h)
  have halg : ¬ r.expectedAlgorithm = ariaCandidateSelectionEvidenceID := by
    unfold expectedAlgorithm
    split
    · rename_i h
      exact absurd h haria
    · decide
    · decide
  simp only [verifyProposalEvidenceEnvelope, hporygon, if_false, checkEvidence, halg, hhead,
    ne_eq, hemp]

end Runtime

/-- What an honest leader broadcasts: a block that its own checks of structure and evidence let
through, under its own hash. -/
structure Honest (p : Primitives) (r : Runtime) (pre : PrePrepare) : Prop where
  wellFormed : WellFormed p true pre.block
  hash_eq : pre.blockHash = pre.block.blockHash
  evidence : r.verifyProposalEvidenceEnvelope p pre.block = none

section Transparency

variable {p : Primitives} {r : Runtime} {pre full : PrePrepare}

lemma Rebuilt.unsigned_eq (hfree : p.CollisionFree) (hpre : Honest p r pre)
    (hfull : Rebuilt p full) (hhead : full.block.toHeader = pre.block.toHeader) :
    full.block.unsigned = pre.block.unsigned := by
  have hids : transactionIDs full.block.txList = transactionIDs pre.block.txList := by
    rw [hfull.ids, ← hpre.wellFormed.ids_eq, hhead]
  have hbodies := unsigned_eq_of_txIDs hfree hfull.verified (hpre.wellFormed.verified rfl) hids
  unfold Block.unsigned
  rw [hhead, hbodies]

lemma Rebuilt.wellFormed (hpre : Honest p r pre) (hfull : Rebuilt p full)
    (hhead : full.block.toHeader = pre.block.toHeader) (strict : Bool) :
    WellFormed p strict full.block where
  hash_ne := hhead ▸ hpre.wellFormed.hash_ne
  hash_eq := hhead ▸ hpre.wellFormed.hash_eq
  root_eq := hhead ▸ hpre.wellFormed.root_eq
  ids_eq := hfull.ids.symm
  nodup := hhead ▸ hpre.wellFormed.nodup
  nonblank := hhead ▸ hpre.wellFormed.nonblank
  verified _ := hfull.verified

/-- A proposal that was put together is accepted when its evidence is and the leader's proposal
passes the checks that do not read signatures. -/
lemma accepts_iff_of_unsigned (hform : WellFormed p r.pbftAuthenticationRequired full.block)
    (hform' : WellFormed p r.pbftAuthenticationRequired pre.block)
    (hunsig : full.block.unsigned = pre.block.unsigned)
    (hevid' : r.verifyProposalEvidenceEnvelope p pre.block = none) :
    r.Accepts p full.block ↔
      r.verifyProposalEvidenceEnvelope p full.block = none ∧ r.Accepts p pre.block := by
  simp only [Accepts, validateConsensusBlockBody, Option.or_eq_none_iff,
    verifyExecutionPlanEnvelope_iff, validateConsensusBlockStructuralV1_iff, hform, hform',
    hunsig, hevid', true_and]
  exact ⟨fun h => ⟨h.2.1, h.1, h.2.2⟩, fun h => ⟨h.2.1, h.1, h.2.2⟩⟩

lemma rebuilt_accepts_iff (hfree : p.CollisionFree) (hpre : Honest p r pre)
    (hfull : Rebuilt p full) (hhead : full.block.toHeader = pre.block.toHeader) :
    (r.Accepts p full.block ↔ r.Accepts p pre.block) ↔
      (r.Accepts p pre.block → r.DigestsBodies → full.block.txList = pre.block.txList) := by
  have hunsig := hfull.unsigned_eq hfree hpre hhead
  have hemp : full.block.txList = [] ↔ pre.block.txList = [] := by
    have hlen := congrArg (fun b : UnsignedBlock => b.txList.length) hunsig
    simp only [Block.unsigned, length_map] at hlen
    rw [← length_eq_zero_iff, hlen, length_eq_zero_iff]
  have hform' : WellFormed p r.pbftAuthenticationRequired pre.block :=
    { hpre.wellFormed with verified := fun _ => hpre.wellFormed.verified rfl }
  have hacc := accepts_iff_of_unsigned (hfull.wellFormed hpre hhead _) hform' hunsig hpre.evidence
  constructor
  · intro hiff hpreAccepts hdig
    have hevid := (hacc.1 (hiff.2 hpreAccepts)).1
    exact evidence_txList hfree hdig hhead hemp hevid hpre.evidence
  · intro hsame
    refine ⟨fun h => (hacc.1 h).2, fun h => hacc.2 ⟨?_, h⟩⟩
    by_cases hdig : r.DigestsBodies
    · -- Equal bodies under an equal header are an equal block.
      have hblk : full.block = pre.block := by
        change Block.mk full.block.toHeader full.block.txList = _
        rw [hhead, hsame h hdig]
      rw [hblk]
      exact hpre.evidence
    · rw [evidence_same hdig hhead hemp]
      exact hpre.evidence

/-! ## Completion -/

lemma repeatedOrBlank_eq_false {seen ids : List String} (hnd : ids.Nodup)
    (hids : ∀ id ∈ ids, Text.trimSpace id = id ∧ id ≠ "" ∧ id ∉ seen) :
    repeatedOrBlank seen ids = false := by
  induction ids generalizing seen with
  | nil => rfl
  | cons id ids ih =>
    obtain ⟨htrim, hne, hnew⟩ := hids id mem_cons_self
    obtain ⟨hfresh, hrest⟩ := nodup_cons.1 hnd
    simp only [repeatedOrBlank, htrim, hne, hnew, or_self, if_false]
    refine ih hrest fun id' hid' => ?_
    obtain ⟨htrim', hne', hnew'⟩ := hids id' (mem_cons_of_mem _ hid')
    refine ⟨htrim', hne', fun hmem => ?_⟩
    rcases mem_cons.1 hmem with rfl | hmem
    · exact hfresh hid'
    · exact hnew' hmem

lemma Honest.identity (hhex : p.Hexadecimal) (hpre : Honest p r pre) :
    validatePBFTCompactBlockIdentity p
      { pre with block := { pre.block with txList := [] } } = none := by
  have hform := hpre.wellFormed
  have hblank : blank pre.block.blockHash = false := by
    rw [← hform.hash_eq]
    exact hhex.blank_sha256 _
  have hids : repeatedOrBlank [] pre.block.txIDs = false := by
    refine repeatedOrBlank_eq_false hform.nodup fun id hid => ?_
    have hmem : id ∈ transactionIDs pre.block.txList := hform.ids_eq ▸ hid
    obtain ⟨t, ht, rfl⟩ := mem_map.1 hmem
    rw [txID_of_verify (hform.verified rfl t ht)]
    exact ⟨hhex.trimSpace_sha256 _, hhex.nonempty _, not_mem_nil⟩
  have hhash : hash p pre.block.toHeader = pre.blockHash := hform.hash_eq.trans hpre.hash_eq.symm
  simp [validatePBFTCompactBlockIdentity, hblank, hids, hhash, hpre.hash_eq, hform.root_eq]

lemma Validator.hydrate_complete (hhex : p.Hexadecimal) (hpre : Honest p r pre)
    (hlead : pre.leaderID ≠ "") (hnonempty : pre.block.txList ≠ []) (v : Validator)
    (hpool : ∀ id ∈ pre.block.txIDs, v.pool.find id ≠ none) (sent : Bool) :
    (v.hydratePBFTCompactPrePrepare p pre.leaderID (compactPBFTPrePrepareForWire pre) sent).2 =
      .reconstructed { pre with block := { pre.block with
        txList := pre.block.txIDs.filterMap (v.bodiesFor (compactPBFTPrePrepareForWire pre)).find }
          } := by
  have hids : pre.block.txIDs ≠ [] := by
    intro h
    have hnil : transactionIDs pre.block.txList = [] := hpre.wellFormed.ids_eq ▸ h
    exact hnonempty (map_eq_nil_iff.1 hnil)
  have hwire : compactPBFTPrePrepareForWire pre =
      { pre with block := { pre.block with txList := [] } } := by
    simp [compactPBFTPrePrepareForWire, hnonempty, hids]
  rw [hwire]
  set wire : PrePrepare := { pre with block := { pre.block with txList := [] } }
  have hfound : ∀ id ∈ wire.block.txIDs, ((v.bodiesFor wire).find id).isNone = false := by
    intro id hid
    obtain ⟨t, ht⟩ := Option.ne_none_iff_exists'.1 (hpool id hid)
    have hlook : (lookupMany v.pool wire.block.txIDs).find id = some t :=
      find_retain_eq_some.2 ⟨ht, decide_eq_true hid⟩
    unfold Validator.bodiesFor
    split
    · rename_i existing _
      have hmem : id ∈ existing.bodies ∪ lookupMany v.pool wire.block.txIDs :=
        AList.mem_union.2 (.inr (AList.lookup_isSome.1 (Option.isSome_of_eq_some hlook)))
      exact Option.isNone_eq_false_iff.2 (AList.lookup_isSome.2 hmem)
    · simp [hlook]
  have hmiss : wire.block.txIDs.filter (fun id => ((v.bodiesFor wire).find id).isNone) = [] := by
    rw [filter_eq_nil_iff]
    intro id hid
    simp [hfound id hid]
  have hids' : wire.block.txIDs ≠ [] := hids
  have hlist : wire.block.txList = [] := rfl
  have hfrom : wire.leaderID = pre.leaderID := rfl
  have hidentity : validatePBFTCompactBlockIdentity p wire = none := hpre.identity hhex
  simp only [Validator.hydratePBFTCompactPrePrepare, hids', hlist, ne_eq, not_true_eq_false,
    or_self, if_false, hidentity, hlead, hfrom, hmiss, if_true]
  rfl

end Transparency

/-- A validator that has a body for every identifier puts an honest proposal together, whatever
arrived before and in whichever order.  What it puts together holds the leader's transactions but
for their signatures.  It is accepted exactly when the leader's proposal is, unless the validator
checks evidence that digests whole transactions: then exactly when the bodies it held or was handed
were the leader's own. -/
theorem compact_proposal_accepted_iff {p : Primitives} (hfree : p.CollisionFree)
    (hhex : p.Hexadecimal) (r : Runtime) {pre : PrePrepare} (hpre : Honest p r pre)
    (events : List Event) :
    let v := Validator.start.run p events
    (pre.leaderID ≠ "" → pre.block.txList ≠ [] → (∀ id ∈ pre.block.txIDs, v.pool.find id ≠ none) →
      ∀ sent,
        ∃ full, (v.hydratePBFTCompactPrePrepare p pre.leaderID
            (compactPBFTPrePrepareForWire pre) sent).2 = .reconstructed full ∧
          full.block.toHeader = pre.block.toHeader) ∧
      ∀ event full, (v.step p event).2 = some (.reconstructed full) →
        full.block.toHeader = pre.block.toHeader → full.block.unsigned = pre.block.unsigned ∧
            ((r.Accepts p full.block ↔ r.Accepts p pre.block) ↔
              (r.Accepts p pre.block → r.DigestsBodies →
                ∀ t ∈ pre.block.txList, v.bodyFor event t.txID = some t)) := by
  intro v
  have hsound : v.Sound p := Validator.run_sound .start events
  constructor
  · intro hleader hnonempty hpool sent
    exact ⟨_, v.hydrate_complete hhex hpre hleader hnonempty hpool sent, rfl⟩
  · intro event full hfull hheader
    have hrebuilt := (Validator.step_spec hsound event).2 full hfull
    obtain ⟨hlist, hall⟩ := Validator.step_txList hsound hfull
    have hids : full.block.txIDs = transactionIDs pre.block.txList := by
      rw [hheader]
      exact hpre.wellFormed.ids_eq
    rw [hids] at hlist hall
    refine ⟨hrebuilt.unsigned_eq hfree hpre hheader, ?_⟩
    rw [rebuilt_accepts_iff hfree hpre hrebuilt hheader, hlist,
      Validator.filterMap_txID_eq_iff hall]

/-! ## Bodies signed otherwise -/

/-- Aria's evidence for a block of the plain transaction, in its wire form. -/
def plainWire : AriaCandidateSelectionConsensusWire where
  shardID := ""
  height := 0
  candidateCount := 1
  selectionLimit := 1
  candidateTxIDs := [plainID]
  candidateLogicalIDs := [plainID]
  candidatePayloadDigest := transactionsDigest plainPrimitives [plainTransaction "a"]
  selectedTxIDs := [plainID]
  selectedLogicalIDs := [plainID]
  deferredTxIDs := []
  deferredLogicalIDs := []
  deferredReasons := []
  selectionResultDigest := "result"
  selectionSemanticDigest := "semantics"
  deferredTransactions := []

def ariaRuntime : Runtime :=
  { plainRuntime with
    plugins := { plainRuntime.plugins with
      blockProducer := some .aria
      ariaWireVersion := fun _ => .ok ariaCandidateSelectionConsensusWireVersion
      ariaWire := fun _ => .ok plainWire } }

def ariaPrePrepare : PrePrepare :=
  let block := assignHash plainPrimitives
    { txIDs := [plainID]
      proposalEvidence :=
        some ⟨ariaCandidateSelectionEvidenceID, plainPrimitives.sha256 "wire", "wire"⟩
      txList := [plainTransaction "a"] }
  { leaderID := "leader", blockHash := block.blockHash, block := block }

lemma ariaPrePrepare_wire :
    validateAriaWire plainPrimitives ariaPrePrepare.block plainWire = none := by
  have hid : plainID ≠ "" := plainPrimitives_hexadecimal.nonempty _
  have hname : (plainTransaction "a").txID = plainID := rfl
  have hsemantic : semanticID (plainTransaction "a") = plainID := rfl
  have hlook : lookup [plainTransaction "a"] plainID = some (plainTransaction "a") := by
    simp [lookup, hname]
  have htxIDs : ariaPrePrepare.block.txIDs = [plainID] := rfl
  have htxList : ariaPrePrepare.block.txList = [plainTransaction "a"] := rfl
  have hshard : ariaPrePrepare.block.shardID = "" := rfl
  have hht : ariaPrePrepare.block.height = 0 := rfl
  simp [validateAriaWire, validateAriaCandidateSelectionEvidence, validateAriaCounts,
    validateAriaPartition, AriaCandidateSelectionConsensusWire.reconstruct, plainWire,
    checkDeferred, firstRepeated, transactionIDs, logicalTransactionIDs, htxIDs, htxList, hshard,
    hht, hname, hid, hsemantic, hlook]

lemma ariaPrePrepare_evidence :
    ariaRuntime.verifyProposalEvidenceEnvelope plainPrimitives ariaPrePrepare.block = none := by
  have hdigest : plainPrimitives.sha256 "wire" ≠ "" := plainPrimitives_hexadecimal.nonempty _
  have hevid : ariaPrePrepare.block.proposalEvidence =
      some ⟨ariaCandidateSelectionEvidenceID, plainPrimitives.sha256 "wire", "wire"⟩ := rfl
  have hvers : ariaCandidateSelectionConsensusWireVersion ≠ "" := by decide
  have halg : ariaCandidateSelectionEvidenceID ≠ "" := by decide
  have hexpected : ariaRuntime.expectedAlgorithm = ariaCandidateSelectionEvidenceID := rfl
  have hdec : ariaRuntime.decodeAriaCandidateSelectionEvidence plainPrimitives
      ariaPrePrepare.block = none := by
    simp [decodeAriaCandidateSelectionEvidence, hevid, ariaRuntime, hvers, ariaPrePrepare_wire]
  have hproducer : ¬ ariaRuntime.plugins.blockProducer = some .porygon := by decide
  simp [verifyProposalEvidenceEnvelope, hproducer, hevid, checkEvidence, hexpected, hdigest,
    halg, hdec]

lemma ariaPrePrepare_honest : Honest plainPrimitives ariaRuntime ariaPrePrepare where
  wellFormed := by
    refine assignHash_wellFormed plainPrimitives_hexadecimal true rfl (nodup_singleton _) ?_
    intro t ht
    rw [mem_singleton.1 ht]
    exact verify_plainTransaction (by decide) (by decide)
  hash_eq := rfl
  evidence := ariaPrePrepare_evidence

lemma ariaPrePrepare_accepted : ariaRuntime.Accepts plainPrimitives ariaPrePrepare.block := by
  have hform := ariaPrePrepare_honest.wellFormed
  constructor
  · rw [validateConsensusBlockBody, Option.or_eq_none_iff]
    exact ⟨validateConsensusBlockStructuralV1_iff.2 hform, rfl⟩
  · rw [verifyExecutionPlanEnvelope_iff]
    refine ⟨ariaPrePrepare_evidence, ?_⟩
    have hhash : ariaPrePrepare.block.unsigned.blockHash =
        hash plainPrimitives ariaPrePrepare.block.unsigned.toHeader := hform.hash_eq.symm
    have hplan : ariaPrePrepare.block.unsigned.executionPlan = none := rfl
    have hplanner : ariaRuntime.plugins.planner = none := rfl
    simp [checkExecutionPlan, hplan, hhash, hplanner]

lemma Validator.run_admit (h : verify p t = none) :
    Validator.start.run p [.admitTx t] = ⟨GoMap.put ∅ t.txID t, ∅⟩ := by
  have hemp : Validator.start.pool.find t.txID = none := rfl
  rw [Validator.run, foldl_cons, foldl_nil, Validator.step, Validator.admitTx, if_pos ⟨h, hemp⟩]
  rfl

lemma verify_resigned : verify plainPrimitives (plainTransaction "a\n") = none :=
  verify_plainTransaction (by decide) (by decide)

/-- A validator whose mempool holds the transaction with a line break after its signature, which
decodes to the same bytes. -/
def resigned : Validator :=
  Validator.start.run plainPrimitives [.admitTx (plainTransaction "a\n")]

def compactProposal : Event :=
  .proposal ariaPrePrepare.leaderID (compactPBFTPrePrepareForWire ariaPrePrepare) true

lemma resigned_step : ∃ full,
    (resigned.step plainPrimitives compactProposal).2 = some (.reconstructed full) ∧
      full.block.toHeader = ariaPrePrepare.block.toHeader ∧
      full.block.txList = [plainTransaction "a\n"] := by
  have hresigned : resigned = ⟨GoMap.put ∅ plainID (plainTransaction "a\n"), ∅⟩ :=
    Validator.run_admit verify_resigned
  have hfind : resigned.pool.find plainID = some (plainTransaction "a\n") := by
    rw [hresigned]
    exact find_put_self _ _ _
  have hfull := resigned.hydrate_complete plainPrimitives_hexadecimal ariaPrePrepare_honest
    (by simp [ariaPrePrepare]) (by simp [ariaPrePrepare, assignHash]) (by
      intro id hid
      rw [mem_singleton.1 hid, hfind]
      exact Option.some_ne_none _) true
  have hwire : plainID ∈ (compactPBFTPrePrepareForWire ariaPrePrepare).block.txIDs := by
    simp [compactPBFTPrePrepareForWire, ariaPrePrepare, assignHash]
  rw [compactProposal, Validator.step_proposal, hfull]
  refine ⟨_, rfl, rfl, ?_⟩
  have hids : ariaPrePrepare.block.txIDs = [plainID] := rfl
  simp [hids, Validator.find_bodiesFor hwire, hresigned]

/-- What that validator puts together is rejected; the leader's own proposal is accepted. -/
theorem resigned_body_rejected : ariaRuntime.Accepts plainPrimitives ariaPrePrepare.block ∧
    ∃ full, (resigned.step plainPrimitives compactProposal).2 = some (.reconstructed full) ∧
      full.block.toHeader = ariaPrePrepare.block.toHeader ∧
      ¬ ariaRuntime.Accepts plainPrimitives full.block := by
  obtain ⟨full, hfull, hheader, hlist⟩ := resigned_step
  have hsound : resigned.Sound plainPrimitives := Validator.run_sound .start _
  have hrebuilt := (Validator.step_spec hsound compactProposal).2 full hfull
  refine ⟨ariaPrePrepare_accepted, full, hfull, hheader, fun haccepts => ?_⟩
  -- Accepted evidence would make the body that was put in the leader's own.
  have hsame := (rebuilt_accepts_iff plainPrimitives_collisionFree ariaPrePrepare_honest hrebuilt
    hheader).1 (iff_of_true haccepts ariaPrePrepare_accepted) ariaPrePrepare_accepted (.inl rfl)
  have hsignatures : ["a\n"] = ["a"] :=
    congrArg (List.map Transaction.signature) (hlist.symm.trans hsame)
  exact absurd hsignatures (by decide)

/-- It has the leader's transaction all the same, but for the signature. -/
theorem compact_proposal_resigned : ∃ full,
    (resigned.step plainPrimitives compactProposal).2 = some (.reconstructed full) ∧
      full.block.unsigned = ariaPrePrepare.block.unsigned := by
  obtain ⟨full, hfull, hheader, -⟩ := resigned_step
  exact ⟨full, hfull, ((compact_proposal_accepted_iff plainPrimitives_collisionFree
    plainPrimitives_hexadecimal ariaRuntime ariaPrePrepare_honest _).2 _ full hfull hheader).1⟩

end ChainLab.Proposal
