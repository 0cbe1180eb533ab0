import ChainLab.Execution.BatchSI.Batches

/-!
# Readers before writers

Both orders of Batch-SI put every reader of an address before its writer and lose no transaction:
what they do not accept they defer (`resolved_orderBatch`).  Each is a run of Kahn's algorithm over
the arcs from readers to writers, repeated after a participant of a cycle was removed.
-/

namespace ChainLab.Execution.BatchSI

open List GoMap Relation
open TxDescriptor

variable {T : Type}

/-! ## Arcs from readers to writers -/

section

variable {items : List (TxDescriptor T)}

variable {key w : String} {reader : TxDescriptor T}

lemma get_writerByKey (hone : OneWriter items) {d : TxDescriptor T} (hd : d ∈ items)
    (hkey : key ∈ d.writeKeys) : (writerByKey items).get key = d.txID := by
  refine Run.foldl_of_mem (P := fun m : GoMap String String => m.get key = d.txID) hd ?_ ?_ ∅
  · intro writers
    rw [get_foldl_put, if_pos hkey]
  · intro writers other hother hget
    rw [get_foldl_put]
    split
    · next hkey' =>
      -- no other transaction writes the key
      by_contra hne
      have hsymm : Std.Symm fun a b : TxDescriptor T => ∀ key ∈ a.writeKeys, key ∉ b.writeKeys :=
        ⟨fun a b h key hb ha => h key ha hb⟩
      exact hone.forall hother hd (fun he => hne (he ▸ rfl)) key hkey' hkey
    · exact hget

def addEdge (items : List (TxDescriptor T)) (reader : TxDescriptor T)
    (edges : GoMap String (GoMap String Bool)) (key : String) : GoMap String (GoMap String Bool) :=
  match otherWriter items reader key with
  | none => edges
  | some writerID => edges.putIn reader.txID writerID true

variable {edges : GoMap String (GoMap String Bool)} {r : String}

lemma addEdge_keeps (h : (edges.get r).get w = true) :
    ((addEdge items reader edges key).get r).get w = true := by
  unfold addEdge
  split
  · exact h
  rw [get_putIn]
  split
  · next he =>
    rw [get_put]
    split
    · rfl
    · exact he ▸ h
  · exact h

lemma foldl_addEdge_keeps {keys : List String} (h : (edges.get r).get w = true) :
    ((keys.foldl (addEdge items reader) edges).get r).get w = true :=
  foldlRecOn (motive := fun edges : GoMap String (GoMap String Bool) => (edges.get r).get w = true)
    keys _ h fun _ h _ _ => addEdge_keeps h

lemma get_dependencyEdges (hreader : reader ∈ items) (hkey : key ∈ foreignReads reader)
    (hw : otherWriter items reader key = some w) :
    ((dependencyEdges items).get reader.txID).get w = true := by
  let Has (edges : GoMap String (GoMap String Bool)) := (edges.get reader.txID).get w = true
  have harc : ∀ edges, Has (addEdge items reader edges key) := by
    intro edges
    simp only [Has, addEdge, hw, get_putIn, get_put, if_true]
  have hrow : ∀ edges, Has ((foreignReads reader).foldl (addEdge items reader) edges) :=
    Run.foldl_of_mem hkey harc fun _ _ _ h => addEdge_keeps h
  exact Run.foldl_of_mem (P := Has) hreader hrow (fun _ _ _ h => foldl_addEdge_keeps h) ∅

end

/-! ## Orders -/

/-- What every order of a batch guarantees: a reader of an address comes before its writer. -/
structure Ordered (txs ordered : List (TxDescriptor T)) : Prop where
  mem : ∀ d ∈ ordered, d ∈ txs
  distinct : (ids ordered).Nodup
  pairwise : ordered.Pairwise fun a b => ∀ key ∈ foreignReads b, key ∉ a.writeKeys

section Kahn

variable {pop : List String → Option (String × List String)}
    {push : String → List String → List String}

/-- What the queue of ready transactions has to do. -/
structure Queue (pop : List String → Option (String × List String))
    (push : String → List String → List String) : Prop where
  pop_perm : ∀ ready v rest, pop ready = some (v, rest) → ready.Perm (v :: rest)
  eq_nil : ∀ ready, pop ready = none → ready = []
  push_perm : ∀ c ready, (push c ready).Perm (c :: ready)

lemma foldl_push_perm (h : Queue pop push) (l acc : List String) :
    (l.foldl (fun ready id => push id ready) acc).Perm (l ++ acc) := by
  induction l generalizing acc with
  | nil => exact List.Perm.refl _
  | cons id l ih =>
    exact (ih _).trans (((h.push_perm id acc).append_left l).trans perm_middle)

lemma topologicalIDs_inv (h : Queue pop push) (edges : GoMap String (GoMap String Bool))
    {active : List String} (hnd : active.Nodup) :
    ∃ degree, Kahn.Inv active (successors edges active) degree [] []
      (topologicalIDs pop push edges active) := by
  have hsucc : ∀ u ∈ active, ∀ c ∈ successors edges active u, c ∈ active := by
    intro u _ c hc
    simpa using (mem_filter.1 hc).2
  have hready := foldl_push_perm h (active.filter fun id =>
    (Kahn.indegrees active (successors edges active)).get id = 0) []
  rw [append_nil] at hready
  refine Kahn.loop_inv hnd hsucc h.pop_perm h.eq_nil h.push_perm
    (Kahn.Inv.start ?_ (hready.nodup_iff.2 (hnd.filter _)) ?_) (by simp)
  · exact fun v _ => Kahn.get_indegrees active _ v
  · intro v
    rw [hready.mem_iff, mem_filter, decide_eq_true_eq]

lemma mem_foldl_pick {α : Type} (f : α → α → Bool) (l : List α) (a : α) :
    l.foldl (fun best c => if f best c then c else best) a ∈ a :: l := by
  induction l generalizing a with
  | nil => simp
  | cons c l ih =>
    rw [foldl_cons]
    rcases mem_cons.1 (ih (if f a c then c else a)) with hin | hin
    · rw [hin]
      split <;> simp
    · simp [hin]

lemma queue_popLeast (less : String → String → Bool) : Queue (popLeast less) List.cons where
  pop_perm := by
    intro ready v rest hpop
    cases ready with
    | nil => simp [popLeast] at hpop
    | cons id ready =>
      simp only [popLeast, Option.some.injEq, Prod.mk.injEq] at hpop
      obtain ⟨hv, rfl⟩ := hpop
      rw [← hv]
      exact perm_cons_erase (mem_foldl_pick (fun least candidate => less candidate least) ready id)
  eq_nil := by
    intro ready hpop
    cases ready with
    | nil => rfl
    | cons id ready => simp [popLeast] at hpop
  push_perm := fun _ _ => List.Perm.refl _

lemma queue_popFirst : Queue popFirst fun id ready => (ready ++ [id]).insertionSort (· ≤ ·) where
  pop_perm := by
    intro ready v rest hpop
    cases ready with
    | nil => simp [popFirst] at hpop
    | cons id ready =>
      simp only [popFirst, Option.some.injEq, Prod.mk.injEq] at hpop
      rw [hpop.1, hpop.2]
  eq_nil := by
    intro ready hpop
    cases ready with
    | nil => rfl
    | cons id ready => simp [popFirst] at hpop
  push_perm := by
    intro c ready
    exact (perm_insertionSort _ _).trans perm_append_comm

end Kahn

section Order

variable {items : List (TxDescriptor T)}

variable {d : TxDescriptor T} {l : List String}

lemma mem_byIDs (h : d ∈ byIDs items l) : d ∈ items ∧ d.txID ∈ l := by
  obtain ⟨id, hid, hfind⟩ := mem_filterMap.1 h
  have hname : d.txID = id := by simpa using find?_some hfind
  exact ⟨mem_of_find?_eq_some hfind, hname ▸ hid⟩

lemma ids_byIDs (hsub : ∀ id ∈ l, id ∈ ids items) : ids (byIDs items l) = l := by
  induction l with
  | nil => rfl
  | cons id l ih =>
    obtain ⟨d, hd, hname⟩ := mem_map.1 (hsub id mem_cons_self)
    have hsome : (items.find? fun item => item.txID = id).isSome := by
      rw [find?_isSome]
      exact ⟨d, hd, by simpa using hname⟩
    obtain ⟨found, hfound⟩ := Option.isSome_iff_exists.1 hsome
    have hid : found.txID = id := by simpa using find?_some hfound
    have hrest := ih fun other hother => hsub other (mem_cons_of_mem id hother)
    simp only [byIDs, ids, filterMap_cons, hfound, map_cons, hid] at hrest ⊢
    rw [hrest]

lemma eq_of_txID (hdist : (ids items).Nodup) {d' : TxDescriptor T} (hd : d ∈ items)
    (hd' : d' ∈ items) (h : d.txID = d'.txID) : d = d' :=
  inj_on_of_nodup_map hdist hd hd' h

variable {active out : List String} {pop : List String → Option (String × List String)}
  {push : String → List String → List String} {higher : TxDescriptor T → TxDescriptor T → Bool}
  {s : OFASSort T}

lemma ordered_of_topological (hone : OneWriter items) (hdist : (ids items).Nodup)
    (hnames : ∀ d ∈ items, d.txID ≠ "") {degree : String → Nat}
    (hact : ∀ id ∈ active, id ∈ ids items)
    (h : Kahn.Inv active (successors (dependencyEdges items) active) degree [] [] out) :
    Ordered items (byIDs items out) := by
  have hmem : ∀ id ∈ out, id ∈ active := fun id hid => h.mem id (by simpa using hid)
  refine ⟨fun d hd => (mem_byIDs hd).1, ?_, ?_⟩
  · rw [ids_byIDs fun id hid => hact id (hmem id hid)]
    simpa using h.distinct
  · refine pairwise_filterMap.2 (h.topological.pairwise.imp_of_mem ?_)
    intro i j hi hj hnot a ha b hb key hread hwrite
    have hai : a.txID = i := by simpa using find?_some ha
    have hbj : b.txID = j := by simpa using find?_some hb
    have hamem := mem_of_find?_eq_some ha
    have hbmem := mem_of_find?_eq_some hb
    have hown : key ∉ b.writeKeys := by simpa using (mem_filter.1 hread).2
    have hne : a.txID ≠ b.txID := by
      intro he
      exact hown (eq_of_txID hdist hamem hbmem he ▸ hwrite)
    -- the arc from the reader `b` to the writer `a` contradicts their places
    have hwriter : otherWriter items b key = some a.txID := by
      simp [otherWriter, get_writerByKey hone hamem hwrite, hnames a hamem, hne]
    have harc := get_dependencyEdges hbmem hread hwriter
    have hfind :=
      find_of_get (m := (dependencyEdges items).get b.txID) (k := a.txID) (by rw [harc]; decide)
    refine hnot (mem_filter.2 ⟨?_, by simpa using hmem i hi⟩)
    rw [← hbj, ← hai]
    exact mem_sortedKeys.2 ⟨_, hfind⟩

lemma Ordered.mono {items' ordered : List (TxDescriptor T)} (h : Ordered items ordered)
    (hsub : ∀ d ∈ items, d ∈ items') : Ordered items' ordered :=
  ⟨fun d hd => hsub d (h.mem d hd), h.distinct, h.pairwise⟩

lemma find_txID (hdist : (ids items).Nodup) (hd : d ∈ items) :
    items.find? (fun item => item.txID = d.txID) = some d := by
  have hsome : (items.find? fun item => item.txID = d.txID).isSome := by
    rw [find?_isSome]
    exact ⟨d, hd, by simp⟩
  obtain ⟨found, hfound⟩ := Option.isSome_iff_exists.1 hsome
  have hid : found.txID = d.txID := by simpa using find?_some hfound
  rw [hfound, eq_of_txID hdist (mem_of_find?_eq_some hfound) hd hid]

lemma byIDs_ids (hdist : (ids items).Nodup) {l : List (TxDescriptor T)}
    (hsub : ∀ d ∈ l, d ∈ items) : byIDs items (ids l) = l := by
  induction l with
  | nil => rfl
  | cons d l ih =>
    have hrest := ih fun other hother => hsub other (mem_cons_of_mem d hother)
    simp only [byIDs, ids, map_cons, filterMap_cons] at hrest ⊢
    rw [find_txID hdist (hsub d mem_cons_self), hrest]

lemma byIDs_perm {l' : List String} (h : l.Perm l') : (byIDs items l).Perm (byIDs items l') :=
  h.filterMap _

lemma perm_cons_filter (hdist : (ids items).Nodup) (hd : d ∈ items) :
    items.Perm (d :: items.filter fun other => other.txID ≠ d.txID) := by
  have hnd : items.Nodup := List.Nodup.of_map _ hdist
  refine (perm_ext_iff_of_nodup hnd ?_).2 ?_
  · refine nodup_cons.2 ⟨?_, hnd.filter _⟩
    simp
  · intro other
    by_cases he : other = d
    · simp [he, hd]
    have hne : other ∈ items → other.txID ≠ d.txID :=
      fun hother hid => he (eq_of_txID hdist hother hd hid)
    simp only [mem_cons, he, false_or, mem_filter, decide_eq_true_eq]
    exact ⟨fun hother => ⟨hother, hne hother⟩, fun hother => hother.1⟩

lemma length_eq_of_all (hdist : (ids items).Nodup) (hnd : out.Nodup)
    (hsub : ∀ id ∈ out, id ∈ ids items) (hall : items.filter (fun item => item.txID ∉ out) = []) :
    out.length = items.length := by
  have hcover : ∀ id ∈ ids items, id ∈ out := by
    intro id hid
    obtain ⟨d, hd, rfl⟩ := mem_map.1 hid
    simpa using filter_eq_nil_iff.1 hall d hd
  have hle := (subperm_of_subset hdist hcover).length_le
  have hge := (subperm_of_subset hnd hsub).length_le
  rw [length_map] at hle hge
  exact Nat.le_antisymm hge hle

/-- The rounds of an order: while it leaves some transactions over, one of them is removed. -/
inductive Rounds (order : List (TxDescriptor T) → List String) :
    List (TxDescriptor T) → List (TxDescriptor T) → List (TxDescriptor T) → Prop where
  | done {txs} (h : (order txs).Perm (ids txs)) : Rounds order txs [] txs
  | remove {txs removed final} {d : TxDescriptor T} (hd : d ∈ txs) (hleft : d.txID ∉ order txs)
      (h : Rounds order (txs.filter fun other => other.txID ≠ d.txID) removed final) :
      Rounds order txs (d :: removed) final

section

variable {order : List (TxDescriptor T) → List String} {txs removed final : List (TxDescriptor T)}
  (h : Rounds order txs removed final)
include h

lemma Rounds.sublist : final.Sublist txs := by
  induction h with
  | done => exact List.Sublist.refl _
  | remove _ _ _ ih => exact ih.trans filter_sublist

lemma Rounds.complete : (order final).Perm (ids final) := by
  induction h with
  | done h => exact h
  | remove _ _ _ ih => exact ih

lemma Rounds.perm (hdist : (ids txs).Nodup) : (final ++ removed).Perm txs := by
  induction h with
  | done => rw [append_nil]
  | remove hd _ _ ih =>
    refine perm_middle.trans (((ih ?_).cons _).trans (perm_cons_filter hdist hd).symm)
    exact hdist.sublist (filter_sublist.map _)

end

lemma length_remove_lt {txs : List (TxDescriptor T)} (hd : d ∈ txs) :
    (txs.filter fun other => other.txID ≠ d.txID).length < txs.length :=
  length_filter_lt_length_iff_exists.2 ⟨d, hd, by simp⟩

lemma resolveCycles_rounds {order : List String → List String}
    {victim : List (TxDescriptor T) → Option (TxDescriptor T)}
    (horder : ∀ active : List String, active.Nodup →
      (order active).Nodup ∧ ∀ id ∈ order active, id ∈ active)
    (hmem : ∀ l d, victim l = some d → d ∈ l) (hnone : ∀ l, victim l = none → l = []) (rounds : Nat)
    (txs aborted : List (TxDescriptor T)) (hdist : (ids txs).Nodup)
    (hrounds : txs.length < rounds) :
    ∃ removed final, Rounds (fun txs => order (ids txs)) txs removed final ∧
      resolveCycles order victim rounds txs aborted = (order (ids final), aborted ++ removed) := by
  induction rounds generalizing txs aborted with
  | zero => omega
  | succ rounds ih =>
    obtain ⟨hnd, hsub⟩ := horder (ids txs) hdist
    unfold resolveCycles
    simp only
    split
    next hlen =>
      refine ⟨[], txs, .done ((subperm_of_subset hnd hsub).perm_of_length_le ?_), by simp⟩
      simp [hlen]
    next hlen =>
      split
      -- an order that is too short leaves some transaction over
      next hv => exact absurd (length_eq_of_all hdist hnd hsub (hnone _ hv)) hlen
      next d hv =>
        obtain ⟨hd, hleft⟩ := mem_filter.1 (hmem _ _ hv)
        obtain ⟨removed, final, h, heq⟩ := ih _ (aborted ++ [d])
          (hdist.sublist (filter_sublist.map _))
            ((length_remove_lt hd).trans_le (Nat.le_of_lt_succ hrounds))
        exact ⟨d :: removed, final, .remove hd (by simpa using hleft) h, by simpa using heq⟩

lemma topologicalIDs_sound (h : Queue pop push) (edges : GoMap String (GoMap String Bool))
    (active : List String) (hnd : active.Nodup) :
    (topologicalIDs pop push edges active).Nodup ∧
      ∀ id ∈ topologicalIDs pop push edges active, id ∈ active := by
  obtain ⟨degree, hinv⟩ := topologicalIDs_inv h edges hnd
  exact ⟨by simpa using hinv.distinct, fun id hid => hinv.mem id (by simpa using hid)⟩

/-- The outcome of an order: what it accepts is in order, and it loses nothing. -/
structure Resolved (items : List (TxDescriptor T))
    (out : List (TxDescriptor T) × List (TxDescriptor T) × Nat) : Prop where
  ordered : Ordered items out.1
  perm : (out.1 ++ out.2.1).Perm items

/-! ### OFAS -/

lemma lowestPriority_mem (l : List (TxDescriptor T)) (d : TxDescriptor T)
    (h : lowestPriority higher l = some d) : d ∈ l := by
  cases l with
  | nil => simp [lowestPriority] at h
  | cons a l =>
    simp only [lowestPriority, Option.some.injEq] at h
    exact h ▸ mem_foldl_pick higher l a

lemma lowestPriority_none (l : List (TxDescriptor T)) (h : lowestPriority higher l = none) :
    l = [] := by
  cases l with
  | nil => rfl
  | cons a l => simp [lowestPriority] at h

/-- What the sorting phase has aborted among the transactions `done`. -/
structure Aborts (s : OFASSort T) (done : List (TxDescriptor T)) : Prop where
  mem : ∀ d ∈ s.aborted, d ∈ done
  distinct : (ids s.aborted).Nodup
  marked : ∀ id, id ∈ s.isAborted ↔ id ∈ ids s.aborted

lemma Aborts.step (items : List (TxDescriptor T)) {done : List (TxDescriptor T)}
    {item : TxDescriptor T} (h : Aborts s done) (hfresh : item.txID ∉ ids done) :
    Aborts (sortTransaction items s item) (done ++ [item]) := by
  have hnew : item.txID ∉ ids s.aborted := by
    intro hin
    obtain ⟨d, hd, he⟩ := mem_map.1 hin
    exact hfresh (mem_map.2 ⟨d, h.mem d hd, he⟩)
  simp only [sortTransaction]
  split
  · refine ⟨?_, ?_, ?_⟩
    · intro d hd
      rcases mem_append.1 hd with hd | hd
      · exact mem_append_left _ (h.mem d hd)
      · exact mem_append_right _ hd
    · rw [ids, map_append, nodup_append]
      refine ⟨h.distinct, by simp, ?_⟩
      intro id hid other hother he
      simp only [map_cons, map_nil, mem_singleton] at hother
      exact hnew (hother ▸ he ▸ hid)
    · intro id
      rw [mem_cons, h.marked, ids, ids, map_append]
      simp [or_comm]
  · exact ⟨fun d hd => mem_append_left _ (h.mem d hd), h.distinct, h.marked⟩

lemma Aborts.perm (h : Aborts s items) (hdist : (ids items).Nodup) :
    (items.filter (fun item => item.txID ∉ s.isAborted) ++ s.aborted).Perm items := by
  have hnd : items.Nodup := List.Nodup.of_map _ hdist
  refine (perm_ext_iff_of_nodup ?_ hnd).2 ?_
  · refine nodup_append.2 ⟨hnd.filter _, List.Nodup.of_map _ h.distinct, ?_⟩
    intro a ha d hd he
    have hkept : a.txID ∉ s.isAborted := by simpa using (mem_filter.1 ha).2
    exact hkept ((h.marked _).2 (mem_map.2 ⟨d, hd, congrArg _ he.symm⟩))
  · intro d
    rw [mem_append, mem_filter, decide_eq_true_eq]
    constructor
    · rintro (hd | hd)
      · exact hd.1
      · exact h.mem d hd
    · intro hd
      by_cases hin : d.txID ∈ s.isAborted
      · obtain ⟨d', hd', he⟩ := mem_map.1 ((h.marked _).1 hin)
        exact .inr (eq_of_txID hdist (h.mem d' hd') hd he ▸ hd')
      · exact .inl ⟨hd, hin⟩

/-! ### The dependency graph -/

lemma greatestID_none (l : List (TxDescriptor T)) (h : greatestID l = none) : l = [] := by
  have hperm := (perm_insertionSort (fun left right : TxDescriptor T => right.txID ≤ left.txID) l)
  rw [head?_eq_none_iff.1 h] at hperm
  exact hperm.symm.eq_nil

lemma dependencyGraphLoop_rounds (rounds : Nat) (txs aborted : List (TxDescriptor T)) (total : Nat)
    (hdist : (ids txs).Nodup) (hrounds : txs.length < rounds) :
    ∃ removed final, Rounds topologicalOrder txs removed final ∧
      (dependencyGraphLoop rounds txs aborted total).1 = byIDs final (topologicalOrder final) ∧
      (dependencyGraphLoop rounds txs aborted total).2.1 = aborted ++ removed := by
  induction rounds generalizing txs aborted total with
  | zero => omega
  | succ rounds ih =>
    obtain ⟨hnd, hsub⟩ := topologicalIDs_sound queue_popFirst (dependencyEdges txs) (ids txs) hdist
    by_cases hlen : (topologicalOrder txs).length = txs.length
    · refine ⟨[], txs, .done ((subperm_of_subset hnd hsub).perm_of_length_le ?_), ?_⟩
      · exact ((length_map _).trans hlen.symm).le
      · simp [dependencyGraphLoop, hlen]
    · cases hv : greatestID (txs.filter fun item => item.txID ∉ topologicalOrder txs) with
      | none => exact absurd (length_eq_of_all hdist hnd hsub (greatestID_none _ hv)) hlen
      | some d =>
        obtain ⟨hd, hleft⟩ :=
          mem_filter.1 ((perm_insertionSort _ _).mem_iff.1 (mem_of_mem_head? hv))
        obtain ⟨removed, final, h, hfirst, hsecond⟩ := ih _ (aborted ++ [d])
          (total + edgeCount (dependencyEdges txs)) (hdist.sublist (filter_sublist.map _))
          ((length_remove_lt hd).trans_le (Nat.le_of_lt_succ hrounds))
        simp only [dependencyGraphLoop, hlen, if_false, hv]
        exact ⟨d :: removed, final, .remove hd (of_decide_eq_true hleft) h,
          hfirst, by simpa using hsecond⟩

/-! ### Both orders -/

/-- The sorting phase of `batchSIOFASOrder`. -/
def sortPhase (items : List (TxDescriptor T)) (priorityMode : PriorityMode) : OFASSort T :=
  (items.insertionSort fun left right =>
      higherPriority (ofasTables items) priorityMode right left = false).foldl
        (sortTransaction items)
    { sortOrder := items.foldl (fun table item => table.put item.txID item.idRank) ∅
      maximumReaderOrder := (ofasTables items).maximumReaderOrder }

section

variable (hone : OneWriter items) (hdist : (ids items).Nodup) (hnames : ∀ d ∈ items, d.txID ≠ "")

include hdist

lemma sortPhase_perm (priorityMode : PriorityMode) :
    (items.filter (fun item => item.txID ∉ (sortPhase items priorityMode).isAborted) ++
      (sortPhase items priorityMode).aborted).Perm items := by
  have hperm := perm_insertionSort (fun left right : TxDescriptor T =>
    higherPriority (ofasTables items) priorityMode right left = false) items
  have haborts : Aborts (sortPhase items priorityMode) _ :=
    split_foldl Aborts (fun _ _ _ hs hfresh => hs.step items hfresh) ⟨by simp, by simp, by simp⟩
      ((hperm.map txID).nodup_iff.2 hdist)
  exact Aborts.perm ⟨fun d hd => hperm.mem_iff.1 (haborts.mem d hd), haborts.distinct,
    haborts.marked⟩ hdist

lemma ofasOrder_rounds (priorityMode : PriorityMode) : ∃ less removed final, Rounds
        (fun txs => topologicalIDs (popLeast less) List.cons (dependencyEdges items) (ids txs))
        (items.filter fun item => item.txID ∉ (sortPhase items priorityMode).isAborted) removed
          final ∧ (ofasOrder items priorityMode).1 = byIDs items
        (topologicalIDs (popLeast less) List.cons (dependencyEdges items) (ids final)) ∧
      (ofasOrder items priorityMode).2.1 =
        orderedDescriptors ((sortPhase items priorityMode).aborted ++ removed) := by
  obtain ⟨removed, final, h, heq⟩ := resolveCycles_rounds
    (topologicalIDs_sound (queue_popLeast (readyLess (sortPhase items priorityMode).sortOrder
      ((items.insertionSort fun left right =>
        higherPriority (ofasTables items) priorityMode right left = false).map txID)))
      (dependencyEdges items))
    (@lowestPriority_mem _ (higherPriority (ofasTables items) priorityMode)) lowestPriority_none
    (items.length + 1)
      (items.filter fun item => item.txID ∉ (sortPhase items priorityMode).isAborted)
    (sortPhase items priorityMode).aborted (hdist.sublist (filter_sublist.map txID))
    (Nat.lt_succ_of_le (length_filter_le _ _))
  exact ⟨_, removed, final, h, congrArg (byIDs items ∘ Prod.fst) heq,
    congrArg (orderedDescriptors ∘ Prod.snd) heq⟩

include hone hnames

lemma ordered_topologicalIDs (h : Queue pop push) (hnd : active.Nodup)
    (hsub : ∀ id ∈ active, id ∈ ids items) :
    Ordered items (byIDs items (topologicalIDs pop push (dependencyEdges items) active)) := by
  obtain ⟨degree, hinv⟩ := topologicalIDs_inv h (dependencyEdges items) hnd
  exact ordered_of_topological hone hdist hnames hsub hinv

lemma resolved_ofasOrder (priorityMode : PriorityMode) :
    Resolved items (ofasOrder items priorityMode) := by
  obtain ⟨less, removed, final, h, hfirst, hsecond⟩ := ofasOrder_rounds hdist priorityMode
  have hsub := h.sublist.trans filter_sublist
  refine ⟨?_, ?_⟩
  · rw [hfirst]
    exact ordered_topologicalIDs hone hdist hnames (queue_popLeast less)
      (hdist.sublist (hsub.map txID)) fun id hid => (hsub.map _).subset hid
  · have hout := (byIDs_perm h.complete).trans (.of_eq (byIDs_ids hdist fun d hd => hsub.subset hd))
    rw [hfirst, hsecond]
    -- the rounds split what the sorting phase has not aborted
    refine (hout.append (perm_orderedDescriptors _)).trans ?_
    refine ((perm_append_comm.append_left final).trans ?_).trans (sortPhase_perm hdist priorityMode)
    rw [← append_assoc]
    exact (h.perm (hdist.sublist (filter_sublist.map _))).append_right _

lemma resolved_dependencyGraphOrder : Resolved items (dependencyGraphOrder items) := by
  obtain ⟨removed, final, h, hfirst, hsecond⟩ :=
    dependencyGraphLoop_rounds (items.length + 1) items [] 0 hdist (Nat.lt_succ_self _)
  have hsub := h.sublist
  have hnd := hdist.sublist (hsub.map txID)
  refine ⟨?_, ?_⟩
  · rw [dependencyGraphOrder, hfirst]
    exact (ordered_topologicalIDs (hone.sublist hsub) hnd (fun d hd => hnames d (hsub.subset hd))
      queue_popFirst hnd fun _ h => h).mono fun d hd => hsub.subset hd
  · rw [dependencyGraphOrder, hfirst, hsecond]
    refine (((byIDs_perm h.complete).trans ?_).append_right _).trans (h.perm hdist)
    rw [byIDs_ids hnd fun _ h => h]

lemma resolved_orderBatch (config : Config) : Resolved items (orderBatch config items) := by
  unfold orderBatch
  split
  · exact resolved_dependencyGraphOrder hone hdist hnames
  · exact resolved_ofasOrder hone hdist hnames config.priorityMode

end

end Order

end ChainLab.Execution.BatchSI
