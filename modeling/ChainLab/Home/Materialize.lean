import ChainLab.Data.Result
import ChainLab.Home.Delta

/-!
# Materialization of versioned deltas

What home blocks do to the value of one key.  The three passes of a commit (the choice of the
changes that a block makes, the filter on physical changes, and the counter of materialized
versions) are one pass of a register over the changes of the key: `commitHomeBlock_register`.
-/

namespace ChainLab.Home

open List GoMap
open State (Sha StateKV DB)
open VersionChain
open Home.Runtime

/-! ## Changes as entries of a version chain -/

def StateDeltaApplyRequest.entry (request : StateDeltaApplyRequest) : Entry String :=
  ⟨request.previousVersion, request.producedVersion, request.orderingNoop, request.value⟩

def SystemStateDelta.entry (item : SystemStateDelta) : Entry String :=
  ⟨item.previousVersion, item.producedVersion, item.orderingNoop, item.value⟩

def kvEntry (item : StateKV) : Entry String :=
  ⟨item.previousVersion, item.producedVersion, item.orderingNoop, item.value⟩

def entriesOf (key : String) (items : List SystemStateDelta) : List (Entry String) :=
  (items.filter fun item => item.key = key).map SystemStateDelta.entry

def kvEntriesOf (key : String) (items : List StateKV) : List (Entry String) :=
  (items.filter fun item => item.key = key).map kvEntry

section Entries

variable {key : String}

variable {item : SystemStateDelta}

lemma entriesOf_cons_self (h : item.key = key) (items : List SystemStateDelta) :
    entriesOf key (item :: items) = item.entry :: entriesOf key items := by
  simp [entriesOf, h]

lemma entriesOf_cons_ne (h : item.key ≠ key) (items : List SystemStateDelta) :
    entriesOf key (item :: items) = entriesOf key items := by
  simp [entriesOf, h]

lemma entriesOf_append (items items' : List SystemStateDelta) :
    entriesOf key (items ++ items') = entriesOf key items ++ entriesOf key items' := by
  simp [entriesOf]

lemma mem_entriesOf {items : List SystemStateDelta} {e : Entry String} :
    e ∈ entriesOf key items ↔ ∃ item ∈ items, item.key = key ∧ item.entry = e := by
  simp [entriesOf, and_assoc]

lemma kvEntriesOf_cons_self {item : StateKV} (h : item.key = key) (items : List StateKV) :
    kvEntriesOf key (item :: items) = kvEntry item :: kvEntriesOf key items := by
  simp [kvEntriesOf, h]

lemma kvEntriesOf_cons_ne {item : StateKV} (h : item.key ≠ key) (items : List StateKV) :
    kvEntriesOf key (item :: items) = kvEntriesOf key items := by
  simp [kvEntriesOf, h]

end Entries

/-! ## The passes of a commit, for one key -/

section

variable {key : String}

def PlainWrite (item : StateKV) : Prop :=
  Versioned item.producedVersion item.updateSemantics ∧ item.orderingNoop = false

variable {materialized : GoMap String Nat} {items : List StateKV}

variable {enforce : Bool} {height : Nat} {homeShard : String} {out : List StateKV} {item : StateKV}

lemma mem_materializable {items : List SystemStateDelta}
    (h : materializableRemoteStateDeltas enforce homeShard height materialized items = .ok out) :
    ∀ kv ∈ out, ∃ item ∈ items, kv = item.stateKV height ∧
      (item.versioned → item.orderingNoop = false) := by
  induction items generalizing materialized out with
  | nil =>
    cases h
    exact fun kv hkv => absurd hkv not_mem_nil
  | cons item items ih =>
    have hskip : ∀ {m out}, materializableRemoteStateDeltas enforce homeShard height m items =
        .ok out →
        ∀ kv ∈ out, ∃ i ∈ item :: items, kv = i.stateKV height ∧
          (i.versioned → i.orderingNoop = false) := by
      intro m out hrest kv hkv
      obtain ⟨i, hi, hspec⟩ := ih hrest kv hkv
      exact ⟨i, mem_cons_of_mem item hi, hspec⟩
    have hemit : ∀ {m}, (item.versioned → item.orderingNoop = false) →
        (materializableRemoteStateDeltas enforce homeShard height m items).map
          (item.stateKV height :: ·) = .ok out →
        ∀ kv ∈ out, ∃ i ∈ item :: items, kv = i.stateKV height ∧
          (i.versioned → i.orderingNoop = false) := by
      intro m hwrite hmapped kv hkv
      obtain ⟨rest, hrest, rfl⟩ := Result.map_eq_ok.1 hmapped
      rcases mem_cons.1 hkv with rfl | hkv
      · exact ⟨item, mem_cons_self, rfl, hwrite⟩
      · exact hskip hrest kv hkv
    simp only [materializableRemoteStateDeltas] at h
    split at h
    · exact hskip h
    split at h
    · split at h
      · exact hskip h
      split at h
      · cases h
      split at h
      · exact hskip h
      · rename_i hnoop
        exact hemit (fun _ => by simpa using hnoop) h
    · rename_i hlegacy
      exact hemit (fun hversioned => absurd hversioned hlegacy) h

lemma materializable_entries {items : List SystemStateDelta}
    (h : materializableRemoteStateDeltas enforce homeShard height materialized items = .ok out)
    (hversioned : ∀ item ∈ items, item.key = key → item.versioned)
    (hhome : ∀ item ∈ items, item.key = key →
      ¬ (item.homeShard ≠ "" ∧ item.homeShard ≠ homeShard)) :
    kvEntriesOf key out = accepted (materialized.get key) (entriesOf key items) := by
  induction items generalizing materialized out with
  | nil =>
    cases h
    rfl
  | cons item items ih =>
    have hrec : ∀ {m out}, materializableRemoteStateDeltas enforce homeShard height m items =
        .ok out →
        kvEntriesOf key out = accepted (m.get key) (entriesOf key items) := fun hrest =>
      ih hrest (fun i hi => hversioned i (mem_cons_of_mem item hi))
        fun i hi => hhome i (mem_cons_of_mem item hi)
    by_cases hkey : item.key = key
    · -- A change of the key: the guard of every branch is the one of the register.
      rw [entriesOf_cons_self hkey, accepted]
      simp only [materializableRemoteStateDeltas, hhome item mem_cons_self hkey,
        hversioned item mem_cons_self hkey, if_true, if_false] at h
      have hput :
          (materialized.put item.key item.producedVersion).get key = item.entry.produced := by
        rw [get_put, if_pos hkey.symm]
        rfl
      rw [hkey] at h
      split at h
      · rename_i hold
        rw [if_pos (show item.entry.produced ≤ materialized.get key from hold)]
        exact hrec h
      · rename_i hnew
        rw [if_neg (show ¬ item.entry.produced ≤ materialized.get key from hnew)]
        split at h
        · cases h
        rw [← hkey] at h
        split at h
        · rename_i hnoop
          rw [if_pos (show item.entry.noop = true from hnoop), hrec h, hput]
        · rename_i hnoop
          rw [if_neg (show ¬ item.entry.noop = true from hnoop)]
          obtain ⟨rest, hrest, rfl⟩ := Result.map_eq_ok.1 h
          rw [kvEntriesOf_cons_self (show (item.stateKV height).key = key from hkey),
            hrec hrest, hput]
          rfl
    · -- A change of another key: the counter of the key stays.
      rw [entriesOf_cons_ne hkey]
      have hput :
          (materialized.put item.key item.producedVersion).get key = materialized.get key := by
        rw [get_put, if_neg (Ne.symm hkey)]
      have hemit : ∀ {m out}, m.get key = materialized.get key →
          (materializableRemoteStateDeltas enforce homeShard height m items).map
            (item.stateKV height :: ·) = .ok out →
          kvEntriesOf key out = accepted (materialized.get key) (entriesOf key items) := by
        intro m out hm hmapped
        obtain ⟨rest, hrest, rfl⟩ := Result.map_eq_ok.1 hmapped
        rw [kvEntriesOf_cons_ne (show (item.stateKV height).key ≠ key from hkey), hrec hrest, hm]
      simp only [materializableRemoteStateDeltas] at h
      split at h
      · exact hrec h
      split at h
      · split at h
        · exact hrec h
        split at h
        · cases h
        split at h
        · rw [hrec h, hput]
        · exact hemit hput h
      · exact hemit rfl h

lemma mem_filterVersionedPhysicalDelta :
    ∀ kv ∈ filterVersionedPhysicalDelta materialized items, kv ∈ items := by
  induction items generalizing materialized with
  | nil => exact fun kv hkv => hkv
  | cons item items ih =>
    intro kv hkv
    simp only [filterVersionedPhysicalDelta] at hkv
    have hcons : ∀ {m}, kv ∈ item :: filterVersionedPhysicalDelta m items → kv ∈ item :: items := by
      intro m hmem
      rcases mem_cons.1 hmem with rfl | hmem
      · exact mem_cons_self
      · exact mem_cons_of_mem item (ih kv hmem)
    split at hkv
    · split at hkv
      · exact mem_cons_of_mem item (ih kv hkv)
      split at hkv
      · exact mem_cons_of_mem item (ih kv hkv)
      · exact hcons hkv
    · exact hcons hkv

lemma filterVersionedPhysicalDelta_entries (hwrs : ∀ kv ∈ items, kv.key = key → PlainWrite kv)
    (hoths : ∀ kv ∈ items, kv.key ≠ key → logicalKey kv.key ≠ logicalKey key)
    (hpair : (kvEntriesOf key items).Pairwise fun d e => d.produced < e.produced)
    (habove : ∀ e ∈ kvEntriesOf key items, materialized.get (logicalKey key) < e.produced) :
    kvEntriesOf key (filterVersionedPhysicalDelta materialized items) = kvEntriesOf key items := by
  induction items generalizing materialized with
  | nil => rfl
  | cons item items ih =>
    have hwrs' := fun kv hkv => hwrs kv (mem_cons_of_mem item hkv)
    have hoths' := fun kv hkv => hoths kv (mem_cons_of_mem item hkv)
    set next := materialized.put (logicalKey item.key) item.producedVersion with hnext
    by_cases hkey : item.key = key
    · rw [kvEntriesOf_cons_self hkey] at hpair habove ⊢
      obtain ⟨hhead, htail⟩ := pairwise_cons.1 hpair
      obtain ⟨hversioned, hnoop⟩ := hwrs item mem_cons_self hkey
      have hlt : materialized.get (logicalKey item.key) < item.producedVersion :=
        hkey ▸ habove (kvEntry item) mem_cons_self
      have hput : ∀ e ∈ kvEntriesOf key items, next.get (logicalKey key) < e.produced := by
        intro e he
        rw [hnext, get_put, if_pos (congrArg logicalKey hkey.symm)]
        exact hhead e he
      simp only [filterVersionedPhysicalDelta, if_pos hversioned, if_neg (Nat.not_le.2 hlt), hnoop,
        Bool.false_eq_true, if_false]
      rw [kvEntriesOf_cons_self hkey, ih hwrs' hoths' htail hput]
    · rw [kvEntriesOf_cons_ne hkey] at hpair habove ⊢
      have hput : next.get (logicalKey key) = materialized.get (logicalKey key) := by
        rw [hnext, get_put, if_neg (Ne.symm (hoths item mem_cons_self hkey))]
      have habove' : ∀ e ∈ kvEntriesOf key items, next.get (logicalKey key) < e.produced :=
        fun e he => hput ▸ habove e he
      simp only [filterVersionedPhysicalDelta]
      split
      · split
        · exact ih hwrs' hoths' hpair habove
        split
        · exact ih hwrs' hoths' hpair habove'
        · rw [kvEntriesOf_cons_ne hkey]
          exact ih hwrs' hoths' hpair habove'
      · rw [kvEntriesOf_cons_ne hkey]
        exact ih hwrs' hoths' hpair habove

lemma applyStateKV_write (sha : Sha) (values : State.Snapshot) (cell : String)
    (h : PlainWrite item) :
    State.applyStateKV sha values cell item = .ok (values.put cell item.value) := by
  obtain ⟨⟨hprod, hsemantics⟩, hnoop⟩ := h
  simp [State.applyStateKV, hnoop, hsemantics, Nat.pos_iff_ne_zero.1 hprod]

lemma applyStateKV_other {sha : Sha} {values values' : State.Snapshot} {cell cell' : String}
    (h : State.applyStateKV sha values cell item = .ok values') (hne : cell' ≠ cell) :
    values'.get cell' = values.get cell' := by
  unfold State.applyStateKV at h
  split at h
  · cases h
    rfl
  · split at h
    · cases h
      rw [get_put, if_neg hne]
    · split at h
      · cases h
      · cases h
        rw [get_put, if_neg hne]

lemma applyDeterministicBatch_get {sha : Sha} {db db' : DB}
    (h : db.applyDeterministicBatch sha items = (db', none))
    (hwrs : ∀ kv ∈ items, kv.key = key → PlainWrite kv)
    (hoths : ∀ kv ∈ items, kv.key ≠ key → db.key kv.key ≠ db.key key) :
    db'.nameSpace = db.nameSpace ∧
      db'.get key = (kvEntriesOf key items).foldl (fun _ d => d.value) (db.get key) := by
  induction items generalizing db with
  | nil =>
    cases h
    exact ⟨rfl, rfl⟩
  | cons item items ih =>
    rw [DB.applyDeterministicBatch] at h
    cases hone : State.applyStateKV sha db.values (db.key item.key) item with
    | error err =>
      rw [hone] at h
      cases h
    | ok values =>
      rw [hone] at h
      obtain ⟨hns, hget⟩ := ih h (fun kv hkv => hwrs kv (mem_cons_of_mem item hkv))
        (fun kv hkv => hoths kv (mem_cons_of_mem item hkv))
      refine ⟨hns, ?_⟩
      rw [hget]
      by_cases hkey : item.key = key
      · rw [kvEntriesOf_cons_self hkey]
        rw [applyStateKV_write sha db.values _ (hwrs item mem_cons_self hkey)] at hone
        cases hone
        simp [DB.get, DB.key, get_put, hkey, kvEntry]
      · rw [kvEntriesOf_cons_ne hkey]
        congr 1
        exact applyStateKV_other hone (Ne.symm (hoths item mem_cons_self hkey))

lemma get_raise (materialized : GoMap String Nat) (item : SystemStateDelta) :
    (raise materialized item).get key =
      if item.key = key then max (materialized.get key) item.producedVersion
      else materialized.get key := by
  unfold raise
  grind

lemma foldl_raise_get (materialized : GoMap String Nat) (items : List SystemStateDelta) :
    (items.foldl raise materialized).get key =
      (entriesOf key items).foldl (fun n d => max n d.produced) (materialized.get key) := by
  induction items generalizing materialized with
  | nil => rfl
  | cons item items ih =>
    rw [foldl_cons, ih, get_raise]
    by_cases hkey : item.key = key
    · rw [entriesOf_cons_self hkey, if_pos hkey]
      rfl
    · rw [entriesOf_cons_ne hkey, if_neg hkey]

end

/-! ## What the steps of a home node change -/

namespace Runtime

variable (sha : Sha)

/-- Nothing but the published versions differs. -/
structure OnlyPublishes (r r' : Runtime) : Prop where
  partition : r'.stateAccessPartitionID = r.stateAccessPartitionID
  db : r'.db = r.db
  pending : r'.pendingStateDeltas = r.pendingStateDeltas
  pendingKeys : r'.pendingStateDeltaKeys = r.pendingStateDeltaKeys
  appliedKeys : r'.appliedStateDeltaKeys = r.appliedStateDeltaKeys
  materialized : r'.stateVersionMaterialized = r.stateVersionMaterialized

lemma OnlyPublishes.refl (r : Runtime) : OnlyPublishes r r :=
  ⟨rfl, rfl, rfl, rfl, rfl, rfl⟩

variable {r r' : Runtime}

lemma OnlyPublishes.trans {r'' : Runtime} (h : OnlyPublishes r r') (h' : OnlyPublishes r' r'') :
    OnlyPublishes r r'' where
  partition := h'.partition.trans h.partition
  db := h'.db.trans h.db
  pending := h'.pending.trans h.pending
  pendingKeys := h'.pendingKeys.trans h.pendingKeys
  appliedKeys := h'.appliedKeys.trans h.appliedKeys
  materialized := h'.materialized.trans h.materialized

lemma OnlyPublishes.foldl {α : Type} {f : Runtime → α → Runtime}
    (hf : ∀ r a, OnlyPublishes r (f r a)) (l : List α) (r : Runtime) :
    OnlyPublishes r (l.foldl f r) := by
  induction l generalizing r with
  | nil => exact .refl r
  | cons a l ih => exact (hf r a).trans (ih (f r a))

variable (r)

lemma publishStateVersion_only (key : String) (version : Nat) (value : String) :
    OnlyPublishes r (r.publishStateVersion key version value) := by
  unfold publishStateVersion
  split
  · exact .refl r
  split
  · exact .refl r
  · exact ⟨rfl, rfl, rfl, rfl, rfl, rfl⟩

lemma catchUp_only (key : String) : OnlyPublishes r (r.catchUp key) := by
  unfold catchUp
  split
  · exact ⟨rfl, rfl, rfl, rfl, rfl, rfl⟩
  · exact .refl r

lemma showNext_only (item : StateDeltaApplyRequest) : OnlyPublishes r (r.showNext item) := by
  unfold showNext
  simp only
  split
  · exact .refl r
  split
  · exact .refl r
  split
  · exact .refl r
  obtain ⟨hpart, hdb, hpend, hpendingKeys, happliedKeys, hmat⟩ :=
    publishStateVersion_only r item.key item.producedVersion item.value
  exact ⟨hpart, hdb, hpend, hpendingKeys, happliedKeys, hmat⟩

lemma publishReady_only (item : StateDeltaApplyRequest) :
    OnlyPublishes r (r.publishReady item) := by
  unfold publishReady
  split
  · exact .refl r
  · exact (catchUp_only r item.key).trans (showNext_only _ item)

lemma publishReadyMethodPreservingHomeVersions_only :
    OnlyPublishes r r.publishReadyMethodPreservingHomeVersions :=
  OnlyPublishes.foldl publishReady_only _ r

lemma publishSystemStateDeltaVersions_only (items : List SystemStateDelta) :
    OnlyPublishes r (r.publishSystemStateDeltaVersions items) := by
  apply OnlyPublishes.foldl
  intro r item
  split
  · exact .refl r
  · exact publishStateVersion_only r _ _ _

lemma publishCommitted_only (items : List SystemStateDelta) :
    OnlyPublishes r (r.publishCommittedMethodPreservingSystemStateDeltaVersions items) := by
  apply OnlyPublishes.foldl
  intro r item
  split
  · exact .refl r
  · exact publishStateVersion_only r _ _ _

variable {r}

lemma OnlyPublishes.enqueue (h : OnlyPublishes r r') (request : StateDeltaApplyRequest) :
    OnlyPublishes (r.enqueue sha request) (r'.enqueue sha request) := by
  unfold Runtime.enqueue
  rw [h.pendingKeys, h.appliedKeys, h.pending]
  simp only
  split
  · exact ⟨h.partition, h.db, rfl, rfl, rfl, h.materialized⟩
  · exact h

lemma handleStateDeltaApplyRequest_cases (r : Runtime) (request : StateDeltaApplyRequest) :
    (r.wrongHomeShard request.homeShard ∧ (r.handleStateDeltaApplyRequest sha request).1 = r) ∨
      (¬ r.wrongHomeShard request.homeShard ∧
        OnlyPublishes (r.enqueue sha request) (r.handleStateDeltaApplyRequest sha request).1) := by
  by_cases hwrong : r.wrongHomeShard request.homeShard
  · simp [handleStateDeltaApplyRequest, hwrong]
  right
  refine ⟨hwrong, ?_⟩
  simp only [handleStateDeltaApplyRequest, hwrong, if_false]
  have hfirst : OnlyPublishes r (if request.versioned ∧ ¬ Chained request.applyOrigin then
      r.publishStateVersion request.key request.producedVersion request.value else r) := by
    split
    · exact publishStateVersion_only r _ _ _
    · exact .refl r
  refine (hfirst.enqueue sha request).trans ?_
  generalize enqueue sha _ request = queued
  split
  · exact publishReadyMethodPreservingHomeVersions_only _
  · exact .refl _

lemma mem_enqueue {request other : StateDeltaApplyRequest}
    (h : other ∈ (r.enqueue sha request).pendingStateDeltas) :
    other ∈ r.pendingStateDeltas ∨ other = request := by
  unfold enqueue at h
  simp only at h
  split at h
  · simpa using h
  · exact .inl h

lemma enqueue_fields (r : Runtime) (request : StateDeltaApplyRequest) :
    (r.enqueue sha request).db = r.db ∧
      (r.enqueue sha request).stateAccessPartitionID = r.stateAccessPartitionID ∧
      (r.enqueue sha request).stateVersionMaterialized = r.stateVersionMaterialized := by
  unfold enqueue
  simp only
  split <;> exact ⟨rfl, rfl, rfl⟩

variable {height : Nat} {items : List SystemStateDelta}

lemma commitHomeBlock_ok (h : r.commitHomeBlock sha height items = (r', none)) : ∃ remoteDeltas db,
      materializableRemoteStateDeltas true r.stateAccessPartitionID height
        r.stateVersionMaterialized items = .ok remoteDeltas ∧
      r.db.applyDeterministicBatch sha
        (filterVersionedPhysicalDelta r.stateVersionMaterialized remoteDeltas) = (db, none) ∧
      OnlyPublishes ({ r with db := db }.markRemoteStateDeltasApplied sha items) r' := by
  have hfirst := publishSystemStateDeltaVersions_only r items
  simp only [commitHomeBlock, hfirst.partition, hfirst.materialized, hfirst.db] at h
  split at h
  · cases h
  rename_i remoteDeltas hremote
  split at h
  · cases h
  split at h
  · cases h
  rename_i db hdb
  cases h
  refine ⟨remoteDeltas, db, hremote, hdb, ?_⟩
  refine OnlyPublishes.trans ?_ (publishCommitted_only _ items)
  exact
    { partition := rfl
      db := rfl
      pending := by simp only [markRemoteStateDeltasApplied, hfirst.pending]
      pendingKeys := by simp only [markRemoteStateDeltasApplied, hfirst.pendingKeys]
      appliedKeys := by simp only [markRemoteStateDeltasApplied, hfirst.appliedKeys]
      materialized := rfl }

lemma commitHomeBlock_rejected {err : CommitError}
    (h : r.commitHomeBlock sha height items = (r', some err)) :
    OnlyPublishes { r with db := r.db.restore sha r.db.values } r' := by
  have hfirst := publishSystemStateDeltaVersions_only r items
  have hrestored : OnlyPublishes { r with db := r.db.restore sha r.db.values }
      ((r.publishSystemStateDeltaVersions items).rollbackCommitFailure sha) :=
    { hfirst with
      db := by simp only [rollbackCommitFailure, hfirst.db] }
  simp only [commitHomeBlock] at h
  split at h
  · cases h
    exact hrestored
  · split at h
    · cases h
      exact hrestored
    · split at h
      · cases h
        exact hrestored
      · cases h

end Runtime

/-! ## Selection -/

lemma Selection.add_ready (height : Nat) (s : Selection) (request : StateDeltaApplyRequest) :
    (s.add height request).ready = s.ready ∨
      (s.add height request).ready = s.ready ++ [request] := by
  unfold Selection.add
  split
  · exact .inl rfl
  split
  · split
    · exact .inr rfl
    split
    · exact .inl rfl
    · exact .inr rfl
  · split
    · exact .inr rfl
    · exact .inl rfl

lemma Selection.foldl_ready (height : Nat) (requests : List StateDeltaApplyRequest)
    (s : Selection) :
    ∃ selected, (requests.foldl (Selection.add height) s).ready = s.ready ++ selected ∧
      selected.Sublist requests := by
  induction requests generalizing s with
  | nil => exact ⟨[], (append_nil _).symm, List.Sublist.slnil⟩
  | cons request requests ih =>
    obtain ⟨selected, hready, hsub⟩ := ih (s.add height request)
    rw [foldl_cons, hready]
    rcases Selection.add_ready height s request with hskip | htake
    · exact ⟨selected, by rw [hskip], hsub.cons request⟩
    · exact ⟨request :: selected, by rw [htake, append_assoc]; rfl, hsub.cons_cons request⟩

lemma selectRemoteStateDeltasForHomeBlock_ready (requests : List StateDeltaApplyRequest)
    (materialized : GoMap String Nat) (height : Nat) :
    (selectRemoteStateDeltasForHomeBlock requests materialized height).ready.Sublist
      (ordered requests) := by
  obtain ⟨selected, hready, hsub⟩ :=
    Selection.foldl_ready height (ordered requests) { current := materialized }
  rw [selectRemoteStateDeltasForHomeBlock, hready]
  exact hsub

/-! ## The register of a key -/

/-- Another key that names neither the cell of the key nor its counter. -/
structure Apart (db : DB) (key other : String) : Prop where
  cell : db.key other ≠ db.key key
  logical : logicalKey other ≠ logicalKey key
  counter : other ≠ logicalKey key

def Runtime.register (r : Runtime) (key : String) : Register String :=
  ⟨r.stateVersionMaterialized.get key, r.db.get key⟩

structure Tidy (r : Runtime) (key : String) (items : List SystemStateDelta) : Prop where
  versioned : ∀ item ∈ items, item.key = key → item.versioned
  home : ∀ item ∈ items, item.key = key → ¬ r.wrongHomeShard item.homeShard
  apart : ∀ item ∈ items, item.key ≠ key → Apart r.db key item.key

variable {key : String} {start : Runtime} {version : Nat}

variable {items : List SystemStateDelta} {chain : List StateDeltaApplyRequest}
  {blocks : List (List SystemStateDelta)}

lemma foldl_raise_counter {materialized : GoMap String Nat}
    (hoths : ∀ item ∈ items, item.key ≠ key → item.key ≠ logicalKey key)
    (hcounter : materialized.get (logicalKey key) ≤ materialized.get key) :
    (items.foldl raise materialized).get (logicalKey key) ≤
      (items.foldl raise materialized).get key := by
  by_cases hlogical : logicalKey key = key
  · rw [hlogical]
  -- No change is counted under the logical key.
  have hnone : entriesOf (logicalKey key) items = [] := by
    apply eq_nil_iff_forall_not_mem.2
    intro e he
    obtain ⟨item, hitem, hkey, -⟩ := mem_entriesOf.1 he
    exact hoths item hitem (fun h => hlogical (hkey.symm.trans h)) hkey
  rw [foldl_raise_get, foldl_raise_get, hnone]
  exact foldlRecOn (motive := (_ ≤ ·)) _ _ hcounter fun n hn d _ => hn.trans (Nat.le_max_left n _)

lemma commitHomeBlock_register (sha : Sha) {r r' : Runtime} {height : Nat}
    (h : r.commitHomeBlock sha height items = (r', none)) (htidy : Tidy r key items)
    (hcounter : r.stateVersionMaterialized.get (logicalKey key) ≤
      r.stateVersionMaterialized.get key) :
    r'.register key = absorbAll (r.register key) (entriesOf key items) ∧
      r'.db.nameSpace = r.db.nameSpace := by
  obtain ⟨remoteDeltas, db, hremote, hdb, honly⟩ := commitHomeBlock_ok sha h
  have hents := materializable_entries hremote htidy.versioned htidy.home
  have hwrs : ∀ kv ∈ remoteDeltas, kv.key = key → PlainWrite kv := by
    intro kv hkv hkey
    obtain ⟨item, hitem, rfl, hnoop⟩ := mem_materializable hremote kv hkv
    have hversioned := htidy.versioned item hitem hkey
    exact ⟨hversioned, hnoop hversioned⟩
  have hapart : ∀ kv ∈ remoteDeltas, kv.key ≠ key → Apart r.db key kv.key := by
    intro kv hkv hkey
    obtain ⟨item, hitem, rfl, -⟩ := mem_materializable hremote kv hkv
    exact htidy.apart item hitem hkey
  -- The second filter has nothing to drop for the key.
  have hfiltered :
      kvEntriesOf key (filterVersionedPhysicalDelta r.stateVersionMaterialized remoteDeltas) =
        kvEntriesOf key remoteDeltas := by
    refine filterVersionedPhysicalDelta_entries hwrs
      (fun kv hkv hkey => (hapart kv hkv hkey).logical) ?_ ?_
    · rw [hents]
      exact accepted_pairwise _ _
    · intro e he
      rw [hents] at he
      exact lt_of_le_of_lt hcounter (accepted_above _ _ e he)
  obtain ⟨hns, hget⟩ := applyDeterministicBatch_get hdb
    (fun kv hkv => hwrs kv (mem_filterVersionedPhysicalDelta kv hkv))
    (fun kv hkv hkey => (hapart kv (mem_filterVersionedPhysicalDelta kv hkv) hkey).cell)
  rw [hfiltered, hents] at hget
  have hval : r'.db.get key = (absorbAll (r.register key) (entriesOf key items)).value := by
    rw [honly.db, absorbAll_value]
    exact hget
  have hvers : r'.stateVersionMaterialized.get key =
      (absorbAll (r.register key) (entriesOf key items)).version := by
    rw [honly.materialized, absorbAll_version]
    exact foldl_raise_get _ _
  refine ⟨?_, ?_⟩
  · rw [register, hval, hvers]
  · rw [honly.db]
    exact hns

/-! ## Runs of a home node -/

inductive Event where
  | receive (request : StateDeltaApplyRequest)
  | block (height : Nat)

structure World where
  home : Runtime
  blocks : List (List SystemStateDelta) := []

variable (sha : Sha)

def World.step (w : World) : Event → World
  | .receive request => { w with home := (w.home.handleStateDeltaApplyRequest sha request).1 }
  | .block height =>
    let items := w.home.readyRemoteStateDeltasForConsensus sha height
    match w.home.commitHomeBlock sha height items with
    | (home, none) => { home := home, blocks := w.blocks ++ [items] }
    | (home, some _) => { w with home := home }

def World.run (start : Runtime) (events : List Event) : World :=
  events.foldl (World.step sha) { home := start }

/-- The requests of a run: for the key the ones of the chain, and any for keys that are apart. -/
structure Allowed (start : Runtime) (key : String) (chain : List StateDeltaApplyRequest)
    (request : StateDeltaApplyRequest) : Prop where
  of_key : request.key = key → request ∈ chain
  apart : request.key ≠ key → Apart start.db key request.key

structure Sound (start : Runtime) (key : String) (chain : List StateDeltaApplyRequest) (w : World) :
    Prop where
  nameSpace : w.home.db.nameSpace = start.db.nameSpace
  partition : w.home.stateAccessPartitionID = start.stateAccessPartitionID
  counter :
    w.home.stateVersionMaterialized.get (logicalKey key) ≤ w.home.stateVersionMaterialized.get key
  pending : ∀ request ∈ w.home.pendingStateDeltas,
    Allowed start key chain request ∧ ¬ start.wrongHomeShard request.homeShard
  register : w.home.register key = absorbAll (start.register key) (entriesOf key w.blocks.flatten)
  origin : ∀ e ∈ entriesOf key w.blocks.flatten, ∃ d ∈ chain, d.entry = e
  sorted : ∀ block ∈ w.blocks, (entriesOf key block).Pairwise fun d e => d.produced ≤ e.produced

namespace Sound

variable {sha} {start : Runtime} {key : String} {chain : List StateDeltaApplyRequest} {w : World}

lemma receive (h : Sound start key chain w) {request : StateDeltaApplyRequest}
    (hallowed : Allowed start key chain request) :
    Sound start key chain (w.step sha (.receive request)) := by
  rcases w.home.handleStateDeltaApplyRequest_cases sha request with ⟨-, hsame⟩ | ⟨hright, honly⟩
  · have hstep : w.step sha (.receive request) = w := by
      rw [World.step, hsame]
    rw [hstep]
    exact h
  · obtain ⟨hdb, hpart, hmat⟩ := w.home.enqueue_fields sha request
    have hhome : (w.step sha (.receive request)).home =
        (w.home.handleStateDeltaApplyRequest sha request).1 := rfl
    have hregister : (w.step sha (.receive request)).home.register key = w.home.register key := by
      rw [hhome, Runtime.register, Runtime.register, honly.db, honly.materialized, hdb, hmat]
    exact
      { h with
        nameSpace := by rw [hhome, honly.db, hdb, h.nameSpace]
        partition := by rw [hhome, honly.partition, hpart, h.partition]
        counter := by
          rw [hhome, honly.materialized, hmat]
          exact h.counter
        pending := by
          intro other hother
          rw [hhome, honly.pending] at hother
          rcases mem_enqueue sha hother with hold | rfl
          · exact h.pending other hold
          · refine ⟨hallowed, ?_⟩
            rwa [wrongHomeShard, h.partition] at hright
        register := hregister.trans h.register }

section Block

variable (h : Sound start key chain w)

include h

lemma ready {height : Nat} {request : StateDeltaApplyRequest}
    (hready : request ∈ (selectRemoteStateDeltasForHomeBlock w.home.pendingStateDeltas
      w.home.stateVersionMaterialized height).ready) :
    Allowed start key chain request ∧ ¬ start.wrongHomeShard request.homeShard :=
  h.pending request
    (mem_ordered.1 ((selectRemoteStateDeltasForHomeBlock_ready _ _ _).subset hready))

lemma block_origin (height : Nat) :
    ∀ e ∈ entriesOf key (w.home.readyRemoteStateDeltasForConsensus sha height),
      ∃ d ∈ chain, d.entry = e := by
  intro e he
  obtain ⟨item, hitem, hkey, rfl⟩ := mem_entriesOf.1 he
  obtain ⟨request, hready, rfl⟩ := mem_map.1 hitem
  exact ⟨request, (h.ready hready).1.of_key hkey, rfl⟩

variable (hchain : ∀ d ∈ chain, d.versioned)
include hchain

lemma tidy (height : Nat) :
    Tidy w.home key (w.home.readyRemoteStateDeltasForConsensus sha height) := by
  have hreq : ∀ item ∈ w.home.readyRemoteStateDeltasForConsensus sha height,
      ∃ request, item = systemStateDeltaFromRequest sha request ∧ Allowed start key chain request ∧
        ¬ start.wrongHomeShard request.homeShard := by
    intro item hitem
    obtain ⟨request, hready, rfl⟩ := mem_map.1 hitem
    exact ⟨request, rfl, h.ready hready⟩
  exact
    { versioned := by
        intro item hitem hkey
        obtain ⟨request, rfl, hallowed, -⟩ := hreq item hitem
        exact hchain request (hallowed.of_key hkey)
      home := by
        intro item hitem _
        obtain ⟨request, rfl, -, hright⟩ := hreq item hitem
        rw [wrongHomeShard, h.partition]
        exact hright
      apart := by
        intro item hitem hkey
        obtain ⟨request, rfl, hallowed, -⟩ := hreq item hitem
        have hstart := hallowed.apart hkey
        exact
          { cell := by
              show w.home.db.key request.key ≠ w.home.db.key key
              simpa only [DB.key, h.nameSpace] using hstart.cell
            logical := hstart.logical
            counter := hstart.counter } }

lemma block_sorted (height : Nat) :
    (entriesOf key (w.home.readyRemoteStateDeltasForConsensus sha height)).Pairwise fun d e =>
      d.produced ≤ e.produced := by
  have hready := (ordered_pairwise w.home.pendingStateDeltas).sublist
    (selectRemoteStateDeltasForHomeBlock_ready _ w.home.stateVersionMaterialized height)
  rw [entriesOf, pairwise_map, readyRemoteStateDeltasForConsensus, filter_map, pairwise_map]
  refine List.Pairwise.imp_of_mem ?_ (hready.filter _)
  intro a b ha hb horder
  obtain ⟨hready_a, hkey_a⟩ := mem_filter.1 ha
  obtain ⟨hready_b, hkey_b⟩ := mem_filter.1 hb
  have hkey_a : a.key = key := of_decide_eq_true hkey_a
  have hkey_b : b.key = key := of_decide_eq_true hkey_b
  exact producedVersion_le_of_order (hchain a ((h.ready hready_a).1.of_key hkey_a))
    (hchain b ((h.ready hready_b).1.of_key hkey_b)) (hkey_a.trans hkey_b.symm) horder

lemma block (height : Nat) : Sound start key chain (w.step sha (.block height)) := by
  set items := w.home.readyRemoteStateDeltasForConsensus sha height with hitems
  have htidy : Tidy w.home key items := h.tidy hchain height
  cases hcom : w.home.commitHomeBlock sha height items with
  | mk home err =>
    cases err with
    | none =>
      have hstep : w.step sha (.block height) = ⟨home, w.blocks ++ [items]⟩ := by
        simp only [World.step, ← hitems, hcom]
      obtain ⟨hregister, hns⟩ := commitHomeBlock_register sha hcom htidy h.counter
      obtain ⟨remoteDeltas, db, -, -, honly⟩ := commitHomeBlock_ok sha hcom
      rw [hstep]
      have hflat : entriesOf key (w.blocks ++ [items]).flatten =
          entriesOf key w.blocks.flatten ++ entriesOf key items := by
        simp [entriesOf_append]
      exact
        { nameSpace := hns.trans h.nameSpace
          partition := honly.partition.trans h.partition
          counter := by
            simp only [honly.materialized, markRemoteStateDeltasApplied]
            exact foldl_raise_counter (fun item hitem hkey => (htidy.apart item hitem hkey).counter)
              h.counter
          pending := by
            intro request hreq
            simp only [honly.pending, markRemoteStateDeltasApplied] at hreq
            exact h.pending request (mem_filter.1 hreq).1
          register := by
            rw [hflat, absorbAll_append, ← h.register]
            exact hregister
          origin := by
            intro e he
            rw [hflat] at he
            rcases mem_append.1 he with he | he
            · exact h.origin e he
            · exact h.block_origin height e he
          sorted :=
            forall_mem_append.2 ⟨h.sorted, forall_mem_singleton.2 (h.block_sorted hchain height)⟩ }
    | some err =>
      have hstep : w.step sha (.block height) = ⟨home, w.blocks⟩ := by
        simp only [World.step, ← hitems, hcom]
      have honly := commitHomeBlock_rejected sha hcom
      rw [hstep]
      exact
        { h with
          nameSpace := (congrArg DB.nameSpace honly.db).trans h.nameSpace
          partition := honly.partition.trans h.partition
          counter := by
            rw [honly.materialized]
            exact h.counter
          pending := by
            intro request hreq
            rw [honly.pending] at hreq
            exact h.pending request hreq
          register := by
            rw [← h.register, Runtime.register, honly.db, honly.materialized]
            rfl }

end Block

end Sound

/-- The changes of a key that one version chain makes, for a node that has applied none of them. -/
structure ChainAt (start : Runtime) (key : String) (chain : List StateDeltaApplyRequest) :
    Prop where
  of_key : ∀ d ∈ chain, d.key = key
  versioned : ∀ d ∈ chain, d.versioned
  linked : ∃ last, Linked (start.stateVersionMaterialized.get key)
    (chain.map StateDeltaApplyRequest.entry) last
  idle : start.pendingStateDeltas = []
  counter :
    start.stateVersionMaterialized.get (logicalKey key) ≤ start.stateVersionMaterialized.get key

lemma ChainAt.sound (hchain : ChainAt start key chain) {events : List Event}
    (hevents : ∀ request, .receive request ∈ events → Allowed start key chain request) :
    Sound start key chain (World.run sha start events) := by
  have hstart : Sound start key chain { home := start } :=
    { nameSpace := rfl
      partition := rfl
      counter := hchain.counter
      pending := fun request hreq => absurd hreq (hchain.idle ▸ not_mem_nil)
      register := rfl
      origin := fun e he => absurd he not_mem_nil
      sorted := fun block hblk => absurd hblk not_mem_nil }
  refine foldlRecOn events (World.step sha) hstart ?_
  intro w hw event hevent
  cases event with
  | receive request => exact hw.receive (hevents request hevent)
  | block height => exact hw.block hchain.versioned height

/-! ## When the highest write is the value that is left -/

/-- A no-op above a version was applied in a block before the block of that version. -/
def Overtaken (key : String) (blocks : List (List SystemStateDelta)) (version : Nat) : Prop :=
  ∃ before block after, blocks = before ++ block :: after ∧
    (∃ d ∈ entriesOf key block, d.produced = version) ∧
    (∀ d ∈ entriesOf key before.flatten, d.produced ≠ version) ∧
    ∃ d ∈ entriesOf key before.flatten, d.noop = true ∧ version < d.produced

def valueWithout (start : Runtime) (key : String) (version : Nat)
    (blocks : List (List SystemStateDelta)) : String :=
  (absorbAll (start.register key)
    ((entriesOf key blocks.flatten).filter fun d => d.produced ≠ version)).value

lemma entriesOf_flatten_append (key : String) (before : List (List SystemStateDelta))
    (block : List SystemStateDelta) (after : List (List SystemStateDelta)) :
    entriesOf key (before ++ block :: after).flatten =
      entriesOf key before.flatten ++ (entriesOf key block ++ entriesOf key after.flatten) := by
  rw [flatten_append, flatten_cons, entriesOf_append, entriesOf_append]

lemma exists_first {α : Type} {p : α → Prop} {l : List α} (h : ∃ a ∈ l, p a) :
    ∃ pre a post, l = pre ++ a :: post ∧ p a ∧ ∀ b ∈ pre, ¬ p b := by
  classical
  have hsome : (l.find? fun a => p a).isSome := find?_isSome.2 (by simpa using h)
  obtain ⟨first, hfirst⟩ := Option.isSome_iff_exists.1 hsome
  obtain ⟨hp, pre, post, hl, hpre⟩ := find?_eq_some_iff_append.1 hfirst
  exact ⟨pre, first, post, hl, by simpa using hp, fun b hb => by simpa using hpre b hb⟩

lemma mem_entriesOf_flatten {d : Entry String} :
    d ∈ entriesOf key blocks.flatten ↔ ∃ block ∈ blocks, d ∈ entriesOf key block := by
  simp only [mem_entriesOf, mem_flatten]
  tauto

lemma exists_first_block (h : ∃ d ∈ entriesOf key blocks.flatten, d.produced = version) :
    ∃ before block after, blocks = before ++ block :: after ∧
      (∃ d ∈ entriesOf key block, d.produced = version) ∧
      ∀ d ∈ entriesOf key before.flatten, d.produced ≠ version := by
  obtain ⟨d, hd, hvers⟩ := h
  obtain ⟨block, hblk, hd⟩ := mem_entriesOf_flatten.1 hd
  obtain ⟨before, first, after, rfl, hfirst, hbef⟩ := exists_first
    (p := fun block => ∃ d ∈ entriesOf key block, d.produced = version) ⟨block, hblk, d, hd, hvers⟩
  refine ⟨before, first, after, rfl, hfirst, ?_⟩
  intro d hd hvers
  obtain ⟨block, hblk, hd⟩ := mem_entriesOf_flatten.1 hd
  exact hbef block hblk ⟨d, hd, hvers⟩

lemma value_of_overtaken (h : Overtaken key blocks version) :
    (absorbAll (start.register key) (entriesOf key blocks.flatten)).value =
      valueWithout start key version blocks := by
  obtain ⟨before, block, after, rfl, -, hbef, d, hd, -, hlt⟩ := h
  have hkeep : (entriesOf key before.flatten).filter (fun d => d.produced ≠ version) =
      entriesOf key before.flatten :=
    filter_eq_self.2 fun e he => by simpa using hbef e he
  have hvers : version ≤ (absorbAll (start.register key) (entriesOf key before.flatten)).version :=
    (Nat.le_of_lt hlt).trans (produced_le_absorbAll _ hd)
  rw [valueWithout, entriesOf_flatten_append, filter_append, hkeep]
  generalize entriesOf key block ++ entriesOf key after.flatten = rest
  rw [absorbAll_append, absorbAll_append, absorbAll_filter _ hvers]

lemma Sound.value_of_not_overtaken {w : World} (hsound : Sound start key chain w) {last : Nat}
    (hlink : Linked (start.stateVersionMaterialized.get key)
      (chain.map StateDeltaApplyRequest.entry) last) {h : StateDeltaApplyRequest} (hh : h ∈ chain)
    (hwrite : h.orderingNoop = false)
    (hhighest : ∀ d ∈ chain, d.orderingNoop = false → d.producedVersion ≤ h.producedVersion)
    (happ : h.entry ∈ entriesOf key w.blocks.flatten)
    (hfree : ¬ Overtaken key w.blocks h.producedVersion) : w.home.db.get key = h.value := by
  obtain ⟨before, block, after, hblks, hblk, hbef⟩ := exists_first_block ⟨h.entry, happ, rfl⟩
  obtain ⟨pre, d, post, hents, hprod, hpre⟩ := exists_first hblk
  have hlog : entriesOf key w.blocks.flatten = (entriesOf key before.flatten ++ pre) ++
      d :: (post ++ entriesOf key after.flatten) := by
    rw [hblks, entriesOf_flatten_append, hents]
    simp
  -- Every applied change is one of the chain, and the chain has one change to a version.
  have horigin : ∀ e ∈ entriesOf key w.blocks.flatten, e ∈ chain.map StateDeltaApplyRequest.entry :=
    fun e he => mem_map.2 (hsound.origin e he)
  have hd : d = h.entry :=
    hlink.eq_of_eq (horigin d (by simp [hlog])) (mem_map_of_mem hh) (.inr hprod)
  have hwrs : ∀ e ∈ entriesOf key w.blocks.flatten, e.noop = false →
      e.produced ≤ h.producedVersion := by
    intro e he hnoop
    obtain ⟨request, hreq, rfl⟩ := hsound.origin e he
    exact hhighest request hreq hnoop
  have hearlier : ∀ e ∈ entriesOf key before.flatten ++ pre, e.produced < h.producedVersion := by
    intro e he
    rcases mem_append.1 he with he | he
    · -- In an earlier block: a higher version would be a no-op, which overtakes.
      apply Nat.lt_of_not_le
      intro hle
      have hlt : h.producedVersion < e.produced := Nat.lt_of_le_of_ne hle (Ne.symm (hbef e he))
      apply hfree
      refine ⟨before, block, after, hblks, hblk, hbef, e, he, ?_, hlt⟩
      cases hnoop : e.noop with
      | true => rfl
      | false => exact absurd (hwrs e (by simp [hlog, he]) hnoop) (Nat.not_le.2 hlt)
    · -- In the same block: the changes of a block are in the order of their versions.
      have hsort := hsound.sorted block (by simp [hblks])
      rw [hents] at hsort
      have hle : e.produced ≤ d.produced := (pairwise_append.1 hsort).2.2 e he d mem_cons_self
      exact Nat.lt_of_le_of_ne (hle.trans_eq hprod) (hpre e he)
  have hval : w.home.db.get key = (w.home.register key).value := rfl
  rw [hval, hsound.register, hlog, hd]
  refine absorbAll_of_record _ ?_ hwrite hearlier ?_
  · obtain ⟨hle, hlt, -⟩ := hlink.bounds (mem_map_of_mem hh)
    exact lt_of_le_of_lt hle hlt
  · intro e he hnoop
    exact hwrs e (by simp only [hlog]; simp [he]) hnoop

/-- The value left at a home node is the one of the highest write, unless the write was overtaken by
a no-op and the value without it is another one. -/
theorem home_value_iff {start : Runtime} {key : String} {chain : List StateDeltaApplyRequest}
    (hchain : ChainAt start key chain) {events : List Event}
    (hevents : ∀ request, .receive request ∈ events → Allowed start key chain request)
    (happlied : ∀ d ∈ chain,
      systemStateDeltaFromRequest sha d ∈ (World.run sha start events).blocks.flatten)
    {h : StateDeltaApplyRequest} (hh : h ∈ chain) (hwrite : h.orderingNoop = false)
    (hhighest : ∀ d ∈ chain, d.orderingNoop = false → d.producedVersion ≤ h.producedVersion) :
    (World.run sha start events).home.db.get key = h.value ↔
      (Overtaken key (World.run sha start events).blocks h.producedVersion →
        valueWithout start key h.producedVersion (World.run sha start events).blocks =
          h.value) := by
  have hsound := hchain.sound sha hevents
  obtain ⟨last, hlinked⟩ := hchain.linked
  by_cases hovertaken : Overtaken key (World.run sha start events).blocks h.producedVersion
  · have hvalue : (World.run sha start events).home.db.get key =
        valueWithout start key h.producedVersion (World.run sha start events).blocks := by
      rw [← value_of_overtaken hovertaken, ← hsound.register]
      rfl
    rw [hvalue]
    exact ⟨fun heq _ => heq, fun himp => himp hovertaken⟩
  · have hentry : h.entry ∈ entriesOf key (World.run sha start events).blocks.flatten :=
      mem_entriesOf.2 ⟨systemStateDeltaFromRequest sha h, happlied h hh, hchain.of_key h hh, rfl⟩
    have hvalue := hsound.value_of_not_overtaken hlinked hh hwrite hhighest hentry hovertaken
    exact ⟨fun _ himp => absurd himp hovertaken, fun _ => hvalue⟩

/-! ## A no-op that comes first -/

def firstWrite : StateDeltaApplyRequest :=
  { key := "k", value := "A", homeShard := "s0", previousVersion := 0, producedVersion := 1 }

def laterNoop : StateDeltaApplyRequest :=
  { key := "k", homeShard := "s0", previousVersion := 1, producedVersion := 2, orderingNoop :=
    true }

def emptyHome : Runtime :=
  { stateAccessPartitionID := "s0", db := DB.new "s0" }

/-- The no-op is received and applied before the write it follows: the write is lost. -/
theorem home_value_overtaken :
    let w := World.run State.plainSha emptyHome
      [.receive laterNoop, .block 1, .receive firstWrite, .block 2]
    (∀ d ∈ [firstWrite, laterNoop],
      systemStateDeltaFromRequest State.plainSha d ∈ w.blocks.flatten) ∧
      w.home.db.get "k" ≠ firstWrite.value := by
  decide +kernel

lemma chainAt_emptyHome : ChainAt emptyHome "k" [firstWrite, laterNoop] where
  of_key := by decide
  versioned := by decide
  linked := ⟨2, .cons rfl (by decide) (.cons rfl (by decide) (.nil 2))⟩
  idle := rfl
  counter := by decide

theorem home_value_in_order : (World.run State.plainSha emptyHome
      [.receive laterNoop, .receive firstWrite, .block 1]).home.db.get "k" = "A" := by
  refine (home_value_iff State.plainSha (h := firstWrite) chainAt_emptyHome ?_ ?_ mem_cons_self rfl
    ?_).2 ?_
  · intro request hrequest
    have hmem : request ∈ [firstWrite, laterNoop] := by
      simp only [mem_cons, Event.receive.injEq, reduceCtorEq, not_mem_nil, or_false] at hrequest
      rcases hrequest with rfl | rfl <;> simp
    exact ⟨fun _ => hmem, fun hkey => absurd (chainAt_emptyHome.of_key request hmem) hkey⟩
  · decide +kernel
  · decide
  · rintro ⟨before, block, after, hblocks, hblock, hbefore, d, hd, -⟩
    -- There is one block only, so no block comes before it.
    have hone : (World.run State.plainSha emptyHome
        [.receive laterNoop, .receive firstWrite, .block 1]).blocks.length = 1 := by decide +kernel
    rw [hblocks] at hone
    have hnil : before = [] := length_eq_zero_iff.1 (by simp at hone; omega)
    rw [hnil] at hd
    cases hd

end ChainLab.Home
