import ChainLab.Mempool.Pool

/-!
# Integrity of the mempool

Along every run of calls the order lists the stored transactions once each, reservations are of
stored transactions, and the capacity is kept.  The hand-out guarantee of reservations is weaker:
`PopReady` does not look at the reservations, and a transaction that left the pool takes its
reservation along, so that a second admission makes it free again.  Runs that avoid both never hand
out a transaction that a proposal still holds.
-/

namespace ChainLab.Mempool

open List GoMap

/-! ## The invariant -/

structure Integrity (capacity : Int) (m : Pool) : Prop where
  policy : m.policy.capacity = capacity
  nodup : m.order.Nodup
  listed : ∀ id, id ∈ m.order ↔ m.hasLocked id = true
  named : ∀ id e, m.byID.find id = some e → e.tx.txID = id
  reserved : ∀ id, m.reserved.get id = true → m.hasLocked id = true
  bounded : (m.order.length : Int) ≤ capacity

namespace Integrity

variable {capacity : Int} {m : Pool}

lemma new (nodeID shardID : String) (policy : Policy) (nonces : NonceManager) :
    Integrity (Pool.new nodeID shardID policy nonces).policy.capacity
      (Pool.new nodeID shardID policy nonces) where
  policy := rfl
  nodup := nodup_nil
  listed := fun id => by simp [Pool.new, Pool.hasLocked]
  named := fun id e h => by simp [Pool.new] at h
  reserved := fun id h => by simp [Pool.new] at h
  bounded := by
    simp only [Pool.new, length_nil, Int.natCast_zero]
    split
    · decide
    · rename_i h
      exact le_of_lt (not_le.1 h)

lemma len_eq (h : Integrity capacity m) : m.byID.len = m.order.length := by
  have hkeys : m.byID.keySet = m.order.toFinset := by
    ext id
    rw [mem_keySet, mem_toFinset, h.listed, Pool.hasLocked, Option.isSome_iff_exists]
  calc m.byID.len = m.byID.keySet.card := (card_keySet _).symm
    _ = m.order.toFinset.card := by rw [hkeys]
    _ = m.order.length := toFinset_card_of_nodup h.nodup

end Integrity

/-! ## What the methods do -/

namespace Pool

variable {capacity : Int} {m : Pool}

lemma hasLocked_removeLocked (m : Pool) (id k : String) :
    (m.removeLocked id).1.hasLocked k = true ↔ k ≠ id ∧ m.hasLocked k = true := by
  unfold removeLocked
  split
  · simp only [hasLocked, find_delete]
    by_cases hk : k = id <;> simp [hk]
  · rename_i hfree
    constructor
    · intro hk
      exact ⟨fun heq => hfree (heq ▸ hk), hk⟩
    · exact fun hk => hk.2

variable {id : String} {item : SignedTransaction} {P : Pool → Prop} {ids : List String}
  {out : List SignedTransaction}

lemma find_removeLocked {k : String} {e : Entry} (h : (m.removeLocked id).1.byID.find k = some e) :
    m.byID.find k = some e := by
  unfold removeLocked at h
  split at h
  · exact of_find_delete h
  · exact h

lemma reserved_removeLocked (m : Pool) {k : String} (hk : k ≠ id) :
    (m.removeLocked id).1.reserved.get k = m.reserved.get k := by
  unfold removeLocked
  split
  · simp [get_delete, hk]
  · rfl

lemma removeLocked_integrity (h : Integrity capacity m) (id : String) :
    Integrity capacity (m.removeLocked id).1 := by
  by_cases hid : m.hasLocked id = true
  · have hrem : (m.removeLocked id).1.order = m.order.filter (· ≠ id) := by
      simp [removeLocked, hid]
    have hpolicy : (m.removeLocked id).1.policy = m.policy := by simp [removeLocked, hid]
    refine
      { policy := hpolicy ▸ h.policy
        nodup := hrem ▸ h.nodup.filter _
        listed := fun k => ?_
        named := fun k e hk => h.named k e (find_removeLocked hk)
        reserved := fun k hk => ?_
        bounded := ?_ }
    · rw [hasLocked_removeLocked, hrem, ← h.listed k]
      simp [and_comm]
    · rcases eq_or_ne k id with rfl | hne
      · simp [removeLocked, hid, get_delete] at hk
      · rw [reserved_removeLocked m hne] at hk
        exact (hasLocked_removeLocked m id k).2 ⟨hne, h.reserved k hk⟩
    · rw [hrem]
      have hlen : (m.order.filter (· ≠ id)).length ≤ m.order.length := length_filter_le _ _
      exact le_trans (Int.ofNat_le.2 hlen) h.bounded
  · have hsame : (m.removeLocked id).1 = m := by simp [removeLocked, hid]
    exact hsame.symm ▸ h

lemma unreserve_integrity (h : Integrity capacity m) (id : String) :
    Integrity capacity (m.unreserve id) where
  __ := h
  reserved := fun k hk => h.reserved k (by
    simp only [unreserve, get_delete] at hk
    by_cases hid : k = id
    · simp [hid] at hk
    · simpa [hid] using hk)

variable (verify : SignedTransaction → Option String)

lemma admitAt_cases (m : Pool) (item : SignedTransaction) (now : Int) (enforceNonce : Bool)
    {out : Pool × AdmissionResult} (h : m.admitAt verify item now enforceNonce = out) :
    (out.2.accepted = false ∧ out.1 = m) ∨
      (out.2.accepted = true ∧ m.hasLocked item.txID = false ∧
        (m.byID.len : Int) < m.policy.capacity ∧
        ∃ nonces, out.1 = { m with nonces := nonces }.store item now) := by
  subst h
  unfold admitAt
  split
  · exact .inl ⟨rfl, rfl⟩
  split
  · exact .inl ⟨rfl, rfl⟩
  rename_i hfree
  split
  · exact .inl ⟨rfl, rfl⟩
  rename_i hroom
  split
  · exact .inl ⟨rfl, rfl⟩
  · rename_i nonces _
    exact .inr ⟨rfl, by simpa using hfree, lt_of_not_ge hroom, nonces, rfl⟩

lemma hasLocked_store (m : Pool) (item : SignedTransaction) (now : Int) (k : String) :
    (m.store item now).hasLocked k = true ↔ k = item.txID ∨ m.hasLocked k = true := by
  simp only [hasLocked, store, find_put]
  by_cases hk : k = item.txID <;> simp [hk]

lemma store_integrity (h : Integrity capacity m) (now : Int)
    (hfree : m.hasLocked item.txID = false) (hroom : (m.byID.len : Int) < m.policy.capacity) :
    Integrity capacity (m.store item now) := by
  have hnew : item.txID ∉ m.order := by
    rw [h.listed, hfree]
    exact Bool.false_ne_true
  refine
    { policy := h.policy
      nodup := h.nodup.append (nodup_singleton _) (disjoint_singleton.2 hnew)
      listed := fun k => ?_
      named := fun k e hk => ?_
      reserved := fun k hk => (hasLocked_store m item now k).2 (.inr (h.reserved k hk))
      bounded := ?_ }
  · rw [hasLocked_store, ← h.listed k]
    simp [store, or_comm]
  · obtain ⟨rfl, rfl⟩ | hk := of_find_put hk
    · rfl
    · exact h.named k e hk
  · rw [h.len_eq, h.policy] at hroom
    simp only [store, length_append, length_singleton, Int.natCast_add, Int.natCast_one]
    exact Int.add_one_le_of_lt hroom

lemma admitAt_integrity (h : Integrity capacity m)
    (item : SignedTransaction) (now : Int) (enforceNonce : Bool) :
    Integrity capacity (m.admitAt verify item now enforceNonce).1 := by
  rcases admitAt_cases verify m item now enforceNonce rfl
      with ⟨-, hsame⟩ | ⟨-, hfree, hroom, nonces, hstore⟩
  · exact hsame.symm ▸ h
  have hnonces : Integrity capacity { m with nonces := nonces } :=
    ⟨h.policy, h.nodup, h.listed, h.named, h.reserved, h.bounded⟩
  rw [hstore]
  exact store_integrity hnonces now hfree hroom

/-! ### Loops that remove -/

section

variable (hremove : ∀ m id, P m → P (m.removeLocked id).1)

include hremove

lemma popFrom_keeps (ids : List String)
    (m : Pool) (out : List SignedTransaction) (h : P m) : P (popFrom ids m out).1 := by
  induction ids generalizing m out with
  | nil => exact h
  | cons id ids ih =>
    unfold popFrom
    split
    · exact ih _ _ (hremove m id h)
    · exact ih _ _ h

lemma expireFrom_keeps (now : Int) (ids : List String) (m : Pool) (out : List AdmissionResult)
    (h : P m) :
    P (expireFrom now ids m out).1 := by
  induction ids generalizing m out with
  | nil => exact h
  | cons id ids ih =>
    unfold expireFrom
    split
    · split
      · exact ih _ _ (hremove m id h)
      · exact ih _ _ h
    · exact ih _ _ h

lemma expire_keeps (now : Int) (m : Pool) (h : P m) : P (m.expire now).1 := by
  unfold expire
  split
  · exact h
  · exact expireFrom_keeps hremove now m.order m [] h

end

lemma mem_popFrom (h : Integrity capacity m) (hitem : item ∈ (popFrom ids m out).2) :
    item ∈ out ∨ item.txID ∈ ids ∧ m.hasLocked item.txID = true := by
  induction ids generalizing m out with
  | nil => exact .inl hitem
  | cons id ids ih =>
    unfold popFrom at hitem
    split at hitem
    · rename_i e he
      have hname : e.tx.txID = id := h.named id e he
      rcases ih (removeLocked_integrity h id) hitem with hout | ⟨hids, hstor⟩
      · rcases mem_append.1 hout with hout | hnew
        · exact .inl hout
        · rw [mem_singleton.1 hnew, hname]
          exact .inr ⟨mem_cons_self, by simp [hasLocked, he]⟩
      · exact .inr ⟨mem_cons_of_mem _ hids, ((hasLocked_removeLocked m id _).1 hstor).2⟩
    · rcases ih h hitem with hout | ⟨hids, hstor⟩
      · exact .inl hout
      · exact .inr ⟨mem_cons_of_mem _ hids, hstor⟩

lemma out_subset_popFrom (hitem : item ∈ out) : item ∈ (popFrom ids m out).2 := by
  induction ids generalizing m out with
  | nil => exact hitem
  | cons id ids ih =>
    unfold popFrom
    split
    · exact ih (mem_append_left _ hitem)
    · exact ih hitem

lemma popFrom_takes (h : Integrity capacity m) (hid : id ∈ ids) (hstor : m.hasLocked id = true) :
    ∃ item ∈ (popFrom ids m out).2, item.txID = id := by
  induction ids generalizing m out with
  | nil => cases hid
  | cons first ids ih =>
    unfold popFrom
    rcases eq_or_ne id first with rfl | hne
    · obtain ⟨e, he⟩ := Option.isSome_iff_exists.1 hstor
      simp only [he]
      exact ⟨e.tx, out_subset_popFrom (mem_append_right _ (mem_singleton_self _)), h.named id e he⟩
    · have hids : id ∈ ids := (mem_cons.1 hid).resolve_left hne
      split
      · exact ih (removeLocked_integrity h first) hids
          ((hasLocked_removeLocked m first id).2 ⟨hne, hstor⟩)
      · exact ih h hids hstor

/-! ### Reservation -/

/-- `ReserveReady` reserves what it hands out, and it hands out only stored transactions that were
not reserved. -/
structure Reserves (m m' : Pool) (items : List SignedTransaction) : Prop where
  only : m' = { m with reserved := m'.reserved }
  free : ∀ item ∈ items, m.hasLocked item.txID = true ∧ m.reserved.get item.txID = false
  reserved : ∀ id, m'.reserved.get id = true ↔
    m.reserved.get id = true ∨ id ∈ items.map SignedTransaction.txID

lemma Reserves.refl (m : Pool) : Reserves m m [] :=
  ⟨rfl, by simp, by simp⟩

lemma reserveFrom_reserves (limit : Nat) (ids : List String) (m : Pool)
    (out : List SignedTransaction) (hnamed : ∀ id e, m.byID.find id = some e → e.tx.txID = id) :
    ∃ items, (reserveFrom limit ids m out).2 = out ++ items ∧
      Reserves m (reserveFrom limit ids m out).1 items := by
  induction ids generalizing m out with
  | nil => exact ⟨[], (append_nil out).symm, .refl m⟩
  | cons id ids ih =>
    unfold reserveFrom
    split
    · exact ⟨[], (append_nil out).symm, .refl m⟩
    split
    · exact ih m out hnamed
    rename_i hfree
    split
    · rename_i e he
      have hname : e.tx.txID = id := hnamed id e he
      obtain ⟨items, hout, honly, hitems, hres⟩ :=
        ih { m with reserved := m.reserved.put id true } (out ++ [e.tx]) hnamed
      refine ⟨e.tx :: items, by rw [hout]; simp, honly, ?_, ?_⟩
      · intro item hitem
        rcases mem_cons.1 hitem with rfl | hitem
        · exact ⟨by simp [hasLocked, hname, he], by rw [hname]; simpa using hfree⟩
        obtain ⟨hstor, hnot⟩ := hitems item hitem
        refine ⟨hstor, ?_⟩
        rw [get_put] at hnot
        by_cases hk : item.txID = id
        · simp [hk] at hnot
        · simpa [hk] using hnot
      · intro k
        rw [hres k, get_put, map_cons, hname]
        by_cases hk : k = id <;> simp [hk]
    · exact ih m out hnamed

lemma reserveReady_reserves (h : Integrity capacity m) (limit : Int) :
    Reserves m (m.reserveReady limit).1 (m.reserveReady limit).2 := by
  obtain ⟨items, hout, hreserves⟩ := reserveFrom_reserves limit.toNat m.order m [] h.named
  exact hout ▸ hreserves

lemma Reserves.integrity {items : List SignedTransaction} {m' : Pool} (hr : Reserves m m' items)
    (h : Integrity capacity m) : Integrity capacity m' := by
  obtain ⟨honly, hitems, hres⟩ := hr
  have hbyID : m'.byID = m.byID := by rw [honly]
  have horder : m'.order = m.order := by rw [honly]
  have hpolicy : m'.policy = m.policy := by rw [honly]
  have hlck : ∀ id, m'.hasLocked id = m.hasLocked id := fun id => by simp [hasLocked, hbyID]
  refine
    { policy := hpolicy ▸ h.policy
      nodup := horder ▸ h.nodup
      listed := fun id => by rw [horder, hlck]; exact h.listed id
      named := fun id e he => h.named id e (hbyID ▸ he)
      reserved := fun id hid => ?_
      bounded := horder ▸ h.bounded }
  rw [hlck]
  rcases (hres id).1 hid with hold | hnew
  · exact h.reserved id hold
  · obtain ⟨item, hitem, rfl⟩ := mem_map.1 hnew
    exact (hitems item hitem).1

lemma commitReserved_keeps (hpass : ∀ m (item : SignedTransaction), P m →
      P ((m.unreserve item.txID).removeLocked item.txID).1) (items : List SignedTransaction)
    (m : Pool) (h : P m) : P (m.commitReserved items) := by
  induction items generalizing m with
  | nil => exact h
  | cons item items ih => exact ih _ (hpass m item h)

lemma reserved_releaseReserved (items : List SignedTransaction) (m : Pool) :
    (m.releaseReserved items) =
        { m with reserved := (m.releaseReserved items).reserved } ∧
      ∀ id, (m.releaseReserved items).reserved.get id = true ↔
        m.reserved.get id = true ∧ id ∉ items.map SignedTransaction.txID := by
  unfold releaseReserved
  induction items generalizing m with
  | nil => simp
  | cons item items ih =>
    obtain ⟨honly, hres⟩ := ih (m.unreserve item.txID)
    refine ⟨honly, fun id => ?_⟩
    rw [foldl_cons, hres id, unreserve, get_delete, map_cons]
    by_cases hid : id = item.txID <;> simp [hid]

lemma step_integrity (h : Integrity capacity m)
    (call : Call) : Integrity capacity (m.step verify call).1 := by
  have hremove : ∀ m id, Integrity capacity m → Integrity capacity (m.removeLocked id).1 :=
    fun _ id hm => removeLocked_integrity hm id
  cases call with
  | admitTx item now enforceNonce => exact admitAt_integrity verify h item now enforceNonce
  | popReady limit => exact popFrom_keeps (P := Integrity capacity) hremove _ m [] h
  | reserveReady limit => exact (reserveReady_reserves h limit).integrity h
  | commitReserved items =>
    exact commitReserved_keeps (P := Integrity capacity)
      (fun m item hm => hremove _ _ (unreserve_integrity hm item.txID)) items m h
  | releaseReserved items =>
    exact List.foldlRecOn items _ h fun _ hm item _ => unreserve_integrity hm item.txID
  | remove txID => exact removeLocked_integrity h txID
  | expire now => exact expire_keeps (P := Integrity capacity) hremove now m h

lemma run_integrity (calls : List Call) (h : Integrity capacity m) (trace : Trace) :
    Integrity capacity (m.run verify trace calls).1 := by
  induction calls generalizing m trace with
  | nil => exact h
  | cons call calls ih => exact ih (step_integrity verify h call) _

end Pool

/-! ## Hand-outs -/

/-- What an entry of the trace does to the transactions that reservations hold: `ReserveReady` adds
those that it hands out, and `ReleaseReserved` ends the hold. -/
def hold (ids : List String) : Call × Answer → List String
  | (.reserveReady _, .handedOut items) => ids ++ items.map SignedTransaction.txID
  | (.releaseReserved items, _) => ids.filter (· ∉ items.map SignedTransaction.txID)
  | _ => ids

/-- The transactions that `ReserveReady` handed out and that were not released since. -/
def outstanding (trace : Trace) : List String :=
  trace.foldl hold []

@[simp] lemma outstanding_append (trace : Trace) (entry : Call × Answer) :
    outstanding (trace ++ [entry]) = hold (outstanding trace) entry := by
  simp [outstanding]

def Fresh (trace : Trace) (entry : Call × Answer) : Prop :=
  ∀ items, entry.2 = .handedOut items → ∀ item ∈ items, item.txID ∉ outstanding trace

def HandedOutOnce (trace : Trace) : Prop :=
  ∀ before entry, before ++ [entry] <+: trace → Fresh before entry

lemma handedOutOnce_append (trace : Trace) (entry : Call × Answer) :
    HandedOutOnce (trace ++ [entry]) ↔ HandedOutOnce trace ∧ Fresh trace entry := by
  constructor
  · intro h
    exact ⟨fun before e hbef => h before e (hbef.trans (prefix_append _ _)),
      h trace entry prefix_rfl⟩
  · rintro ⟨htrace, hent⟩ before e hbef
    rcases prefix_concat_iff.1 hbef with heq | hbef
    · obtain ⟨rfl, hlast⟩ := append_inj' heq rfl
      cases hlast
      exact hent
    · exact htrace before e hbef

/-- What a call must not do: pop a reserved transaction, or admit one that is outstanding and has
left the pool. -/
def Call.Careful (m : Pool) (trace : Trace) : Call → Prop
  | .popReady limit => ∀ id ∈ m.order.take limit.toNat, m.reserved.get id = false
  | .admitTx item _ _ => m.hasLocked item.txID = false → item.txID ∉ outstanding trace
  | _ => True

instance (m : Pool) (trace : Trace) : (call : Call) → Decidable (call.Careful m trace)
  | .popReady limit => inferInstanceAs (Decidable (∀ id ∈ m.order.take limit.toNat, _))
  | .admitTx .. => inferInstanceAs (Decidable (_ → _))
  | .reserveReady _ | .commitReserved _ | .releaseReserved _ | .remove _ | .expire _ =>
    .isTrue trivial

/-- Every call of the run is careful in the state that it meets. -/
def Careful (verify : SignedTransaction → Option String) (m : Pool) (trace : Trace) :
    List Call → Prop
  | [] => True
  | call :: calls =>
    call.Careful m trace ∧
      Careful verify (m.step verify call).1 (trace ++ [(call, (m.step verify call).2)]) calls

namespace Pool

variable {capacity : Int} {m : Pool} {trace : Trace} (verify : SignedTransaction → Option String)

/-! ### Reserved transactions are outstanding -/

def Backed (trace : Trace) (m : Pool) : Prop :=
  ∀ id, m.reserved.get id = true → id ∈ outstanding trace

lemma backed_of_reserved {m' : Pool} (h : Backed trace m)
    (hres : ∀ id, m'.reserved.get id = true → m.reserved.get id = true) : Backed trace m' :=
  fun id hid => h id (hres id hid)

lemma removeLocked_backed (m : Pool) (id : String) (h : Backed trace m) :
    Backed trace (m.removeLocked id).1 := by
  apply backed_of_reserved h
  intro k hk
  unfold removeLocked at hk
  split at hk
  · by_cases hid : k = id
    · simp [hid, get_delete] at hk
    · simpa [hid, get_delete] using hk
  · exact hk

lemma unreserve_backed (m : Pool) (id : String) (h : Backed trace m) :
    Backed trace (m.unreserve id) := by
  apply backed_of_reserved h
  intro k hk
  by_cases hid : k = id
  · simp [unreserve, hid, get_delete] at hk
  · simpa [unreserve, hid, get_delete] using hk

lemma step_backed (h : Integrity capacity m) (hb : Backed trace m) (call : Call) :
    Backed (trace ++ [(call, (m.step verify call).2)]) (m.step verify call).1 := by
  -- Only `ReserveReady` and `ReleaseReserved` change what is outstanding.
  have hsame : ∀ {entry : Call × Answer} {m' : Pool}, hold (outstanding trace) entry =
      outstanding trace → Backed trace m' → Backed (trace ++ [entry]) m' := by
    intro entry m' hent hm' id hid
    rw [outstanding_append, hent]
    exact hm' id hid
  cases call with
  | admitTx item now enforceNonce =>
    apply hsame rfl
    rcases admitAt_cases verify m item now enforceNonce rfl with ⟨-, hm⟩ | ⟨-, -, -, nonces, hstore⟩
    · exact backed_of_reserved hb fun id hid => by rwa [step, hm] at hid
    · exact backed_of_reserved hb fun id hid => by rwa [step, hstore] at hid
  | popReady limit =>
    exact hsame rfl (popFrom_keeps (P := Backed trace) removeLocked_backed _ m [] hb)
  | reserveReady limit =>
    intro id hid
    rw [outstanding_append]
    rcases ((reserveReady_reserves h limit).reserved id).1 hid with hold | hnew
    · exact mem_append_left _ (hb id hold)
    · exact mem_append_right _ hnew
  | commitReserved items =>
    exact hsame rfl (commitReserved_keeps (P := Backed trace)
      (fun m item hm => removeLocked_backed _ _ (unreserve_backed m _ hm)) items m hb)
  | releaseReserved items =>
    intro id hid
    obtain ⟨hold, hkept⟩ := ((reserved_releaseReserved items m).2 id).1 hid
    rw [outstanding_append]
    exact mem_filter.2 ⟨hb id hold, decide_eq_true hkept⟩
  | remove txID => exact hsame rfl (removeLocked_backed m txID hb)
  | expire now => exact hsame rfl (expire_keeps (P := Backed trace) removeLocked_backed now m hb)

/-! ### Outstanding transactions of the pool are reserved -/

def Covered (ids : List String) (m : Pool) : Prop :=
  ∀ id ∈ ids, m.hasLocked id = true → m.reserved.get id = true

lemma removeLocked_covered {ids : List String} (m : Pool) (id : String) (h : Covered ids m) :
    Covered ids (m.removeLocked id).1 := by
  intro k hk hstor
  obtain ⟨hne, hstor⟩ := (hasLocked_removeLocked m id k).1 hstor
  rw [reserved_removeLocked m hne]
  exact h k hk hstor

lemma commitOne_covered {ids : List String} (m : Pool) (item : SignedTransaction)
    (h : Covered ids m) : Covered ids ((m.unreserve item.txID).removeLocked item.txID).1 := by
  intro k hk hstor
  obtain ⟨hne, hstor⟩ := (hasLocked_removeLocked _ item.txID k).1 hstor
  rw [reserved_removeLocked _ hne, unreserve, get_delete]
  simpa [hne] using h k hk hstor

section

variable (h : Integrity capacity m)

include h

lemma step_covered (hc : Covered (outstanding trace) m) (call : Call)
    (hcall : call.Careful m trace) :
    Covered (outstanding (trace ++ [(call, (m.step verify call).2)])) (m.step verify call).1 := by
  rw [outstanding_append]
  cases call with
  | admitTx item now enforceNonce =>
    intro id hid hstor
    rcases admitAt_cases verify m item now enforceNonce rfl
        with ⟨-, hm⟩ | ⟨-, hfree, -, nonces, hstore⟩
    · rw [step, hm] at hstor ⊢
      exact hc id hid hstor
    · rw [step, hstore] at hstor ⊢
      rcases (hasLocked_store _ item now id).1 hstor with rfl | hstor
      · exact absurd hid (hcall hfree)
      · exact hc id hid hstor
  | popReady limit =>
    exact popFrom_keeps (P := Covered (outstanding trace)) removeLocked_covered _ m [] hc
  | reserveReady limit =>
    have hreserves := reserveReady_reserves h limit
    intro id hid hstor
    refine (hreserves.reserved id).2 ?_
    rcases mem_append.1 hid with hold | hnew
    · rw [step, hreserves.only] at hstor
      exact .inl (hc id hold hstor)
    · exact .inr hnew
  | commitReserved items =>
    exact commitReserved_keeps (P := Covered (outstanding trace)) commitOne_covered items m hc
  | releaseReserved items =>
    obtain ⟨honly, hres⟩ := reserved_releaseReserved items m
    intro id hid hstor
    obtain ⟨hid, hkept⟩ := mem_filter.1 hid
    rw [step, honly] at hstor
    exact (hres id).2 ⟨hc id hid hstor, of_decide_eq_true hkept⟩
  | remove txID => exact removeLocked_covered m txID hc
  | expire now =>
    exact expire_keeps (P := Covered (outstanding trace)) removeLocked_covered now m hc

lemma step_fresh (hc : Covered (outstanding trace) m) (call : Call) (hcall : call.Careful m trace) :
    Fresh trace (call, (m.step verify call).2) := by
  intro items hitems item hitem hheld
  cases call with
  | popReady limit =>
    cases hitems
    rcases mem_popFrom h hitem with hnil | ⟨htaken, hstor⟩
    · cases hnil
    have hres := hc item.txID hheld hstor
    rw [hcall item.txID htaken] at hres
    cases hres
  | reserveReady limit =>
    cases hitems
    obtain ⟨hstor, hnot⟩ := (reserveReady_reserves h limit).free item hitem
    rw [hc item.txID hheld hstor] at hnot
    cases hnot
  | admitTx | commitReserved | releaseReserved | remove | expire => cases hitems

lemma popReady_not_fresh
    (hb : Backed trace m) {limit : Int} {id : String} (htaken : id ∈ m.order.take limit.toNat)
    (hres : m.reserved.get id = true) :
    ¬ Fresh trace (.popReady limit, (m.step verify (.popReady limit)).2) := by
  intro hfresh
  obtain ⟨item, hitem, hname⟩ : ∃ item ∈ (m.popReady limit).2, item.txID = id :=
    popFrom_takes h htaken (h.reserved id hres)
  exact hfresh _ rfl item hitem (hname ▸ hb id hres)

end

/-! ### Runs -/

lemma run_backed (calls : List Call) (h : Integrity capacity m) (hb : Backed trace m) :
    Backed (m.run verify trace calls).2 (m.run verify trace calls).1 := by
  induction calls generalizing m trace with
  | nil => exact hb
  | cons call calls ih => exact ih (step_integrity verify h call) (step_backed verify h hb call)

lemma run_handedOutOnce (calls : List Call)
    (h : Integrity capacity m) (hc : Covered (outstanding trace) m) (honce : HandedOutOnce trace)
    (hcare : Careful verify m trace calls) : HandedOutOnce (m.run verify trace calls).2 := by
  induction calls generalizing m trace with
  | nil => exact honce
  | cons call calls ih =>
    obtain ⟨hcall, hcalls⟩ := hcare
    exact ih (step_integrity verify h call) (step_covered verify h hc call hcall)
      ((handedOutOnce_append trace _).2 ⟨honce, step_fresh verify h hc call hcall⟩) hcalls

end Pool

/-- Every run from a new pool keeps the order, the map and the reservations in agreement and within
the capacity, and a rejected admission changes nothing.  Careful runs hand out no transaction that
is outstanding, and a `PopReady` that is not careful does. -/
theorem mempool_run_integrity (verify : SignedTransaction → Option String)
    (nodeID shardID : String) (policy : Policy) (nonces : NonceManager) (calls : List Call) :
    let start := Pool.new nodeID shardID policy nonces
    let m := (start.run verify [] calls).1
    let trace := (start.run verify [] calls).2
    m.order.Nodup ∧ (∀ id, id ∈ m.order ↔ m.hasLocked id = true) ∧
      (∀ id, m.reserved.get id = true → m.hasLocked id = true) ∧
      (m.byID.len : Int) ≤ start.policy.capacity ∧
      (∀ item now enforceNonce, (m.admitAt verify item now enforceNonce).2.accepted = false →
        (m.admitAt verify item now enforceNonce).1 = m) ∧
      (Careful verify start [] calls → HandedOutOnce trace) ∧
      ∀ limit, ¬ (Call.popReady limit).Careful m trace →
        ¬ HandedOutOnce (trace ++ [(.popReady limit, (m.step verify (.popReady limit)).2)]) := by
  intro start m trace
  have hstart : Integrity start.policy.capacity start := .new nodeID shardID policy nonces
  have hm : Integrity start.policy.capacity m := Pool.run_integrity verify calls hstart []
  refine ⟨hm.nodup, hm.listed, hm.reserved, ?_, ?_, ?_, ?_⟩
  · rw [hm.len_eq]
    exact hm.bounded
  · intro item now enforceNonce hrejected
    rcases Pool.admitAt_cases verify m item now enforceNonce rfl with ⟨-, hsame⟩ | ⟨haccepted, -⟩
    · exact hsame
    · rw [haccepted] at hrejected
      cases hrejected
  · intro hcareful
    refine Pool.run_handedOutOnce verify calls hstart ?_ ?_ hcareful
    · intro id hid
      cases hid
    · intro before entry hbefore
      simp at hbefore
  · intro limit hpop honce
    have hb : Pool.Backed trace m := Pool.run_backed verify calls hstart fun id hid => by
      simp [start, Pool.new] at hid
    simp only [Call.Careful, not_forall, Bool.not_eq_false] at hpop
    obtain ⟨id, htaken, hreserved⟩ := hpop
    exact Pool.popReady_not_fresh verify hm hb htaken hreserved
      ((handedOutOnce_append trace _).1 honce).2

/-- A transaction that is reserved is admitted again, which the pool refuses, and popped once it has
been released. -/
theorem handed_out_once_released :
    let item : SignedTransaction := { txID := "tx", sender := "alice" }
    HandedOutOnce ((Pool.new "node" "s0" ⟨0, 0⟩ ∅).run (fun _ => none) []
      [.admitTx item 0 true, .reserveReady 1, .admitTx item 1 false, .releaseReserved [item],
        .popReady 1]).2 :=
  (mempool_run_integrity (fun _ => none) "node" "s0" ⟨0, 0⟩ ∅ _).2.2.2.2.2.1
    ⟨by decide +kernel, trivial, by decide +kernel, trivial, by decide +kernel, trivial⟩

/-- A reserved transaction is popped; and a reserved transaction that was removed comes back with a
relay and is reserved a second time. -/
theorem reserved_handed_out_again :
    let verify : SignedTransaction → Option String := fun _ => none
    let item : SignedTransaction := { txID := "tx", sender := "alice" }
    let start := Pool.new "node" "s0" ⟨0, 0⟩ ∅
    ¬ HandedOutOnce (start.run verify [] [.admitTx item 0 true, .reserveReady 1, .popReady 1]).2 ∧
      ¬ HandedOutOnce (start.run verify []
        [.admitTx item 0 true, .reserveReady 1, .remove "tx", .admitTx item 1 false,
          .reserveReady 1]).2 := by
  intro verify item start
  constructor
  · intro honce
    have hfresh := honce (start.run verify [] [.admitTx item 0 true, .reserveReady 1]).2
      (.popReady 1, .handedOut [item]) (by decide +kernel)
    exact hfresh [item] rfl item (mem_singleton_self item) (by decide +kernel)
  · intro honce
    have hfresh := honce (start.run verify [] [.admitTx item 0 true, .reserveReady 1, .remove "tx",
        .admitTx item 1 false]).2
      (.reserveReady 1, .handedOut [item]) (by decide +kernel)
    exact hfresh [item] rfl item (mem_singleton_self item) (by decide +kernel)

end ChainLab.Mempool
