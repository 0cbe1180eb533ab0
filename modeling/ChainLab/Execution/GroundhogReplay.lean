import ChainLab.Data.Code
import ChainLab.Execution.GroundhogNormal
import ChainLab.Execution.GroundhogTable

/-!
# Replay protection of the Groundhog executor

A transfer inserts its identifier into its sender's replay set, and an identifier that is there
already is a conflict.  The set is an object like any other: a block may clear it, overwrite it
under another spelling of its key, or give it another type.  `replay_protected` says that over a run
of blocks that do none of this to the entries of transfers no transfer is committed twice.
-/

namespace ChainLab.Execution.Groundhog

open List hiding set
open Result (map_eq_ok)
open TableBase
open Keyed

def Object.shape : Object → Shape
  | .integer _ _ _ => .integer
  | .bytes _ => .bytes
  | .orderedSet _ _ _ => .orderedSet

namespace TableBase

variable {t : TableBase}

/-! ## Objects keep their kind -/

variable {object : Object} {last : Option Object} {ms : List Modification} {hash k : String}
  {cleared tag : Nat}

lemma shape_of_addInteger {key : String} {objectBase positive negative baseInt delta : Int}
    (h : addInteger key objectBase positive negative baseInt delta = .ok object) :
    object.shape = .integer := by
  unfold addInteger at h
  repeat' split at h
  all_goals cases h
  all_goals rfl

lemma shape_of_applyChange {key : String} {next : Object} {change : Change}
    (h : applyChange key object change = .ok next) :
    object.shape = change.shape ∧ next.shape = object.shape := by
  cases object with
  | integer objectBase positive negative =>
    cases change with
    | integerAdd baseInt delta => exact ⟨rfl, shape_of_addInteger h⟩
    | bytesSet bytes | orderedSetInsert tag hash | orderedSetClear threshold
    | orderedSetGrow increase => cases h
  | bytes value =>
    cases change with
    | bytesSet bytes =>
      simp only [applyChange] at h
      split at h
      · cases h
      · cases h
        exact ⟨rfl, rfl⟩
    | integerAdd baseInt delta | orderedSetInsert tag hash | orderedSetClear threshold
    | orderedSetGrow increase => cases h
  | orderedSet limit cleared byHash =>
    cases change with
    | orderedSetInsert tag hash =>
      simp only [applyChange] at h
      split at h
      · cases h
      split at h
      · cases h
      · cases h
        exact ⟨rfl, rfl⟩
    | orderedSetClear threshold =>
      cases h
      exact ⟨rfl, rfl⟩
    | orderedSetGrow increase =>
      simp only [applyChange] at h
      split at h
      · cases h
      split at h
      · cases h
      · cases h
        exact ⟨rfl, rfl⟩
    | integerAdd baseInt delta | bytesSet bytes => cases h

lemma shape_newObject (m : Modification) : (t.newObject m).shape = m.change.shape := by
  unfold newObject
  cases m.change with
  | integerAdd baseInt delta | bytesSet bytes | orderedSetInsert tag hash
    | orderedSetClear threshold
  | orderedSetGrow increase => rfl

variable {m : Modification} {entries : List (Nat × String)} {set : OrderedSet}

lemma run_cons_some (h : t.operations.run m.key (some object) (m :: ms) = .ok last) :
    ∃ next, applyChange m.key object m.change = .ok next ∧
      t.operations.run m.key (some next) ms = .ok last := by
  have hkey : m.key = t.operations.key m := rfl
  rw [hkey, run_cons_self, Result.bind_eq_ok] at h
  obtain ⟨object', hobject', hlast⟩ := h
  obtain ⟨next, hnext, rfl⟩ := map_eq_ok.1 hobject'
  exact ⟨next, hnext, hlast⟩

lemma run_shape (h : t.operations.run k (some object) ms = .ok last) :
    ∀ m ∈ ms, m.key = k → m.change.shape = object.shape := by
  induction ms generalizing object with
  | nil => simp
  | cons m ms ih =>
    intro m' hm' hkey'
    by_cases hkey : m.key = k
    · subst hkey
      obtain ⟨next, hnext, hlast⟩ := run_cons_some h
      have hshape := shape_of_applyChange hnext
      rcases mem_cons.1 hm' with rfl | hm'
      · exact hshape.1.symm
      · exact (ih hlast m' hm' hkey').trans hshape.2
    · rw [run_cons_of_ne hkey] at h
      rcases mem_cons.1 hm' with rfl | hm'
      · exact absurd hkey' hkey
      · exact ih h m' hm' hkey'

/-! ## Ordered sets -/

variable (t) in
def storedSet (key : String) : OrderedSet :=
  t.decodeOrderedSet (t.base.get (groundhogQualifiedKey t.shardID key)) t.orderedSetLimit

variable (t) in
def storedObject (key : String) : Object :=
  .orderedSet (t.storedSet key).limit (t.storedSet key).cleared (liveEntries (t.storedSet key))

/-- The changes of an ordered set, when they go through: entries stay, no hash is inserted twice,
and the threshold is the highest of those that are set. -/
lemma run_orderedSet {limit : Int} {byHash : Finmap fun _ : String => Nat}
    (h : t.operations.run k (some (.orderedSet limit cleared byHash)) ms = .ok last) :
    ∃ limit' cleared' byHash', last = some (.orderedSet limit' cleared' byHash') ∧
      (∀ hash tag, byHash.lookup hash = some tag → byHash'.lookup hash = some tag) ∧
      (∀ tag hash, (⟨k, .orderedSetInsert tag hash⟩ : Modification) ∈ ms →
        hash ∉ byHash ∧ byHash'.lookup hash = some tag) ∧
      ∀ bound, cleared < bound →
        (∀ threshold, (⟨k, .orderedSetClear threshold⟩ : Modification) ∈ ms → threshold < bound) →
        cleared' < bound := by
  induction ms generalizing limit cleared byHash with
  | nil =>
    cases h
    exact ⟨limit, cleared, byHash, rfl, fun _ _ hlook => hlook, by simp, fun _ hb _ => hb⟩
  | cons m ms ih =>
    by_cases hkey : m.key = k
    · subst hkey
      obtain ⟨next, hnext, hlast⟩ := run_cons_some h
      obtain ⟨key, change⟩ := m
      cases change with
      | integerAdd baseInt delta | bytesSet bytes => cases hnext
      | orderedSetInsert tag hash =>
        simp only [applyChange] at hnext
        split at hnext
        · cases hnext
        next hnew =>
        split at hnext
        · cases hnext
        cases hnext
        obtain ⟨limit', cleared', byHash', rfl, hkept, hins, hcleared⟩ := ih hlast
        refine ⟨limit', cleared', byHash', rfl, ?_, ?_, ?_⟩
        · intro hash' tag' hlook
          have hne : hash' ≠ hash := by
            rintro rfl
            exact hnew (Finmap.mem_of_lookup_eq_some hlook)
          exact hkept hash' tag' (by rw [Finmap.lookup_insert_of_ne _ hne]; exact hlook)
        · intro tag' hash' hmem
          rcases mem_cons.1 hmem with heq | hmem
          · cases heq
            exact ⟨hnew, hkept hash tag (Finmap.lookup_insert _)⟩
          · have hrest := hins tag' hash' hmem
            exact ⟨fun hin => hrest.1 (Finmap.mem_insert.2 (.inr hin)), hrest.2⟩
        · intro bound hb hthr
          exact hcleared bound hb fun threshold hmem =>
            hthr threshold (mem_cons_of_mem _ hmem)
      | orderedSetClear threshold =>
        cases hnext
        obtain ⟨limit', cleared', byHash', rfl, hkept, hins, hcleared⟩ := ih hlast
        refine ⟨limit', cleared', byHash', rfl, hkept, ?_, ?_⟩
        · intro tag' hash' hmem
          exact hins tag' hash' (by simpa using hmem)
        · intro bound hb hthr
          apply hcleared bound
          · exact max_lt hb (hthr threshold (by simp))
          · intro threshold' hmem
            exact hthr threshold' (mem_cons_of_mem _ hmem)
      | orderedSetGrow increase =>
        simp only [applyChange] at hnext
        split at hnext
        · cases hnext
        split at hnext
        · cases hnext
        cases hnext
        obtain ⟨limit', cleared', byHash', rfl, hkept, hins, hcleared⟩ := ih hlast
        refine ⟨limit', cleared', byHash', rfl, hkept, ?_, ?_⟩
        · intro tag' hash' hmem
          exact hins tag' hash' (by simpa using hmem)
        · intro bound hb hthr
          exact hcleared bound hb fun threshold hmem =>
            hthr threshold (mem_cons_of_mem _ hmem)
    · -- a change of another key
      rw [run_cons_of_ne hkey] at h
      have hmem : ∀ change, (⟨k, change⟩ : Modification) ∈ m :: ms → ⟨k, change⟩ ∈ ms := by
        intro change hmem
        rcases mem_cons.1 hmem with heq | hmem
        · exact absurd (congrArg Modification.key heq).symm hkey
        · exact hmem
      obtain ⟨limit', cleared', byHash', rfl, hkept, hins, hcleared⟩ := ih h
      refine ⟨limit', cleared', byHash', rfl, hkept, ?_, ?_⟩
      · intro tag hash hm
        exact hins tag hash (hmem _ hm)
      · intro bound hb hthr
        exact hcleared bound hb fun threshold hm =>
          hthr threshold (mem_cons_of_mem _ hm)

lemma run_none_orderedSet (h : t.operations.run k none ms = .ok last) (hm : m ∈ ms)
    (hkey : m.key = k) (hshape : m.change.shape = .orderedSet) :
    t.operations.run k (some (t.storedObject k)) ms = .ok last := by
  induction ms with
  | nil => cases hm
  | cons first ms ih =>
    by_cases hfirst : first.key = k
    · subst hfirst
      have hnew :
          t.operations.run first.key (some (t.newObject first)) (first :: ms) = .ok last := by
        have hkey' : first.key = t.operations.key first := rfl
        rw [hkey', run_cons_self] at h ⊢
        exact h
      have hset := (run_shape hnew m hm hkey).symm.trans hshape
      have hobject : t.newObject first = t.storedObject first.key := by
        rw [shape_newObject] at hset
        unfold newObject
        cases hchange : first.change with
        | integerAdd baseInt delta | bytesSet bytes => simp [hchange, Change.shape] at hset
        | orderedSetInsert tag hash | orderedSetClear threshold | orderedSetGrow increase => rfl
      rw [← hobject]
      exact hnew
    · rw [run_cons_of_ne hfirst] at h ⊢
      rcases mem_cons.1 hm with rfl | hm
      · exact absurd hkey hfirst
      · exact ih h hm

/-! ## Stored sets -/

variable (t) in
lemma decodeOrderedSet_marshal (set : OrderedSet) (defaultLimit : Int) :
    ∃ limit, t.decodeOrderedSet (t.codec.marshal set) defaultLimit = { set with limit :=
      limit } := by
  unfold decodeOrderedSet
  simp only [t.codec.marshal_ne set, ne_eq, not_false_eq_true, if_true, t.codec.unmarshal_marshal]
  generalize (if defaultLimit < 1 then orderedSetInitialLimit else defaultLimit) = default
  generalize (if orderedSetMaximumLimit < default then orderedSetMaximumLimit else default) =
    default
  split_ifs
  all_goals exact ⟨_, rfl⟩

/-- The step of `liveEntries`. -/
def addLive (cleared : Nat) (m : Finmap fun _ : String => Nat) (entry : Nat × String) :
    Finmap fun _ : String => Nat :=
  if cleared < entry.1 then m.insert entry.2 entry.1 else m

lemma of_lookup_foldl_addLive {m : Finmap fun _ : String => Nat}
    (h : (entries.foldl (addLive cleared) m).lookup hash = some tag) :
    (tag, hash) ∈ entries ∧ cleared < tag ∨ m.lookup hash = some tag := by
  induction entries generalizing m with
  | nil => exact .inr h
  | cons entry entries ih =>
    rcases ih h with ⟨hmem, hlt⟩ | hlook
    · exact .inl ⟨mem_cons_of_mem _ hmem, hlt⟩
    unfold addLive at hlook
    split at hlook
    · next hlt =>
      by_cases hhash : hash = entry.2
      · subst hhash
        rw [Finmap.lookup_insert] at hlook
        cases hlook
        exact .inl ⟨mem_cons_self, hlt⟩
      · rw [Finmap.lookup_insert_of_ne _ hhash] at hlook
        exact .inr hlook
    · exact .inr hlook

lemma mem_liveEntries (hmem : (tag, hash) ∈ set.entries) (htag : set.cleared < tag) :
    hash ∈ liveEntries set := by
  unfold liveEntries
  refine Run.foldl_of_mem (P := (hash ∈ ·)) hmem ?_ ?_ ∅
  · intro m
    simp [htag]
  · intro m entry _ hin
    split
    · exact Finmap.mem_insert.2 (.inr hin)
    · exact hin

lemma mem_sortedEntries {byHash : Finmap fun _ : String => Nat}
    (hlook : byHash.lookup hash = some tag) (htag : cleared < tag) :
    (tag, hash) ∈ sortedEntries cleared byHash := by
  unfold sortedEntries
  rw [mem_insertionSort, mem_filter, mem_filterMap]
  refine ⟨⟨hash, ?_, by simp [hlook]⟩, by simpa using htag⟩
  exact mem_sortedKeys.2 (Finmap.mem_of_lookup_eq_some hlook)

/-! ## Materialization -/

section

variable {objects : Objects} {working : Snapshot}

lemma materialize_step {before after : Snapshot} {key : String} {object : Object}
    (hobject : objects.lookup key = some object) (h : (match objects.lookup key with
      | none => .ok before
      | some object => (t.materializeObject key object).map
          (before.put (groundhogQualifiedKey t.shardID key))) = Except.ok after) :
    ∃ value, t.materializeObject key object = .ok value ∧
      after = before.put (groundhogQualifiedKey t.shardID key) value := by
  rw [hobject] at h
  obtain ⟨value, hval, rfl⟩ := map_eq_ok.1 h
  exact ⟨value, hval, rfl⟩

lemma find_materialize_of_ne (h : t.materialize objects = .ok working) {p : String}
    (hp : ∀ k ∈ objects, groundhogQualifiedKey t.shardID k ≠ p) :
    working.find p = t.base.find p := by
  have hkeys : ∀ k ∈ sortedKeys objects, groundhogQualifiedKey t.shardID k ≠ p :=
    fun k hk => hp k (mem_sortedKeys.1 hk)
  refine Result.foldlM_induction (P := fun w => w.find p = t.base.find p) h rfl ?_
  intro before key after hkey hbef hstep
  cases hobject : objects.lookup key with
  | none =>
    rw [hobject] at hstep
    cases hstep
    exact hbef
  | some object =>
    obtain ⟨value, -, rfl⟩ := materialize_step hobject hstep
    rw [GoMap.find_put_ne _ _ (Ne.symm (hkeys key hkey))]
    exact hbef

lemma find_materialize (h : t.materialize objects = .ok working) {k : String} {object : Object}
    (hk : objects.lookup k = some object) (honly : ∀ k' ∈ objects,
      groundhogQualifiedKey t.shardID k' = groundhogQualifiedKey t.shardID k → k' = k) :
    ∃ value, t.materializeObject k object = .ok value ∧
      working.find (groundhogQualifiedKey t.shardID k) = some value := by
  unfold materialize at h
  have hmem : k ∈ sortedKeys objects := mem_sortedKeys.2 (Finmap.mem_of_lookup_eq_some hk)
  have honly' : ∀ k' ∈ sortedKeys objects,
      groundhogQualifiedKey t.shardID k' = groundhogQualifiedKey t.shardID k → k' = k :=
    fun k' hk' => honly k' (mem_sortedKeys.1 hk')
  generalize sortedKeys objects = keys at h hmem honly'
  -- the keys are visited one by one; `k` is written and what follows leaves it alone
  generalize t.base = before at h
  induction keys generalizing before with
  | nil => cases hmem
  | cons key keys ih =>
    rw [foldlM_cons, Result.bind_eq_ok] at h
    obtain ⟨after, hstep, hrest⟩ := h
    by_cases hin : k ∈ keys
    · exact ih hin (fun k' hk' => honly' k' (mem_cons_of_mem _ hk')) after hrest
    have hkey : k = key := (mem_cons.1 hmem).resolve_right hin
    subst hkey
    obtain ⟨value, hval, rfl⟩ := materialize_step hk hstep
    refine ⟨value, hval, ?_⟩
    refine Result.foldlM_induction
      (P := fun w => w.find (groundhogQualifiedKey t.shardID k) = some value) hrest (by simp) ?_
    intro w key' w' hkey' hw hstep'
    cases hobject : objects.lookup key' with
    | none =>
      rw [hobject] at hstep'
      cases hstep'
      exact hw
    | some object' =>
      obtain ⟨value', -, rfl⟩ := materialize_step hobject hstep'
      rw [GoMap.find_put_ne]
      · exact hw
      · intro heq
        have hsame := honly' key' (mem_cons_of_mem _ hkey') heq.symm
        exact hin (hsame ▸ hkey')

end

/-! ## Concurrent reservations -/

lemma Reserves.exists_order {objects : Objects} {calls : List (List Modification)}
    {outcome : Objects × List (Option Conflict)} {count : Nat}
    (h : t.Reserves count objects calls outcome)
    (hkeys : ∀ ms ∈ calls, ∀ m ∈ ms, m.key ≠ "") (hok : outcome.2.all Option.isNone = true) :
    ∃ order : List (List Modification), order.Perm calls ∧
      t.operations.call objects order.flatten = .ok outcome.1 := by
  obtain ⟨conflicts, hcompleted, hconflicts⟩ := h
  have hlocks : ∀ i, ∀ m ∈ calls.get i, t.operations.key m ∈ lockKeys (calls.get i) := by
    intro i m hm
    exact mem_lockKeys hm (hkeys _ (get_mem calls i) m hm)
  obtain ⟨order, ⟨hnd, hall, hlast, hfailures⟩, -⟩ := completed_linear hlocks hcompleted
  have hnone : ∀ i, conflicts i = none := by
    intro i
    rw [hconflicts, all_eq_true] at hok
    have hi := hok (conflicts i) (by simp [mem_ofFn])
    simpa using hi
  refine ⟨order.map calls.get, ?_, ?_⟩
  · have hperm : order.Perm (List.finRange calls.length) := by
      rw [perm_ext_iff_of_nodup hnd (nodup_finRange _)]
      intro i
      simp [hall i]
    simpa using hperm.map calls.get
  · rw [call_flatten_iff]
    refine ⟨hlast, ?_⟩
    intro front ms back hsplit
    obtain ⟨front', rest, rfl, rfl, hrest⟩ := map_eq_append_iff.1 hsplit
    obtain ⟨i, back', rfl, rfl, rfl⟩ := map_eq_cons_iff.1 hrest
    rw [← hfailures front' i back' rfl]
    exact hnone i

end TableBase

/-! ## What must not happen to a replay set -/

def Change.threshold? : Change → Option Nat
  | .orderedSetClear threshold => some threshold
  | _ => none

def Change.tag? : Change → Option Nat
  | .orderedSetInsert tag _ => some tag
  | _ => none

/-- The thresholds below which a set is cleared: the stored one and those that `mods` set. -/
def thresholds (t : TableBase) (mods : List Modification) (key : String) : List Nat :=
  (t.storedSet key).cleared :: (mods.filter fun m => m.key = key).filterMap fun m =>
    m.change.threshold?

/-- The tags of the entries of a set: those that are stored and those that `mods` insert. -/
def tags (t : TableBase) (mods : List Modification) (key : String) : List Nat :=
  ((mods.filter fun m => m.key = key).filterMap fun m => m.change.tag?) ++
    ((t.storedSet key).entries.map Prod.fst).filter fun tag => (t.storedSet key).cleared < tag

/-- Modifications that leave the entries of a sender's replay set in place.  They change it as a
set, under the one spelling of its key, and clear none of its entries. -/
structure ReplayIntact (t : TableBase) (mods : List Modification) (sender : String) : Prop where
  untouched : ∀ m ∈ mods,
    groundhogQualifiedKey t.shardID m.key = groundhogQualifiedKey t.shardID (replayKey sender) →
      m.key = replayKey sender ∧ m.change.shape = .orderedSet
  kept : ∀ threshold ∈ thresholds t mods (replayKey sender),
    ∀ tag ∈ tags t mods (replayKey sender), threshold < tag

instance (t : TableBase) (mods : List Modification) (sender : String) :
    Decidable (ReplayIntact t mods sender) :=
  decidable_of_iff ((∀ m ∈ mods,
      groundhogQualifiedKey t.shardID m.key = groundhogQualifiedKey t.shardID (replayKey sender) →
        m.key = replayKey sender ∧ m.change.shape = .orderedSet) ∧
      ∀ threshold ∈ thresholds t mods (replayKey sender),
        ∀ tag ∈ tags t mods (replayKey sender), threshold < tag)
    ⟨fun h => ⟨h.1, h.2⟩, fun h => ⟨h.untouched, h.kept⟩⟩

namespace ReplayIntact

variable {t : TableBase} {mods : List Modification} {sender : String}

lemma threshold_lt (h : ReplayIntact t mods sender) {tag threshold : Nat}
    (htag : tag ∈ tags t mods (replayKey sender))
    (hm : (⟨replayKey sender, .orderedSetClear threshold⟩ : Modification) ∈ mods) :
    threshold < tag := by
  apply h.kept threshold _ tag htag
  apply mem_cons_of_mem
  exact mem_filterMap.2 ⟨_, mem_filter.2 ⟨hm, by simp⟩, rfl⟩

end ReplayIntact

variable {hash key : String} {mods : List Modification} {t : TableBase} {tag : Nat}
    {working : Snapshot}

lemma mem_tags_of_live (h : (liveEntries (t.storedSet key)).lookup hash = some tag) :
    tag ∈ tags t mods key := by
  apply mem_append_right
  obtain ⟨hmem, hlt⟩ := (of_lookup_foldl_addLive h).resolve_right (by simp)
  exact mem_filter.2 ⟨mem_map_of_mem hmem, by simpa using hlt⟩

/-! ## One block -/

def TableBase.withBase (t : TableBase) (working : Snapshot) : TableBase :=
    { t with base := working }

lemma storedSet_of_find {set : OrderedSet}
    (h : working.find (groundhogQualifiedKey t.shardID key) = some (t.codec.marshal set)) :
    ∃ limit, (t.withBase working).storedSet key = { set with limit := limit } := by
  unfold storedSet withBase
  rw [GoMap.get_of_find h]
  exact t.decodeOrderedSet_marshal set t.orderedSetLimit

lemma storedSet_congr (h : working.find (groundhogQualifiedKey t.shardID key) =
      t.base.find (groundhogQualifiedKey t.shardID key)) :
    (t.withBase working).storedSet key = t.storedSet key := by
  unfold storedSet withBase GoMap.get
  rw [h]
  rfl

attribute [irreducible] storedSet

lemma replay_kept {sender : String} {objects : Objects}
    (hcall : t.operations.call ∅ mods = .ok objects)
    (hwork : t.materialize objects = .ok working) (h : ReplayIntact t mods sender) :
    (∀ hash ∈ liveEntries (t.storedSet (replayKey sender)),
        hash ∈ liveEntries ((t.withBase working).storedSet (replayKey sender))) ∧
      ∀ tag hash, (⟨replayKey sender, .orderedSetInsert tag hash⟩ : Modification) ∈ mods →
        hash ∉ liveEntries (t.storedSet (replayKey sender)) ∧
          hash ∈ liveEntries ((t.withBase working).storedSet (replayKey sender)) := by
  -- the objects of the table are those that are modified
  have hmodified : ∀ k ∈ objects, ∃ m ∈ mods, m.key = k := by
    intro k hk
    by_contra hnone
    have hlook := lookup_of_call (k := k) hcall fun m hm hkey => hnone ⟨m, hm, hkey⟩
    exact (Finmap.lookup_eq_none.1 hlook) hk
  have honly : ∀ k' ∈ objects, groundhogQualifiedKey t.shardID k' =
      groundhogQualifiedKey t.shardID (replayKey sender) → k' = replayKey sender := by
    intro k' hk' hsame
    obtain ⟨m, hm, rfl⟩ := hmodified k' hk'
    exact (h.untouched m hm hsame).1
  by_cases htouched : ∃ m ∈ mods, m.key = replayKey sender
  · obtain ⟨m, hm, hkey⟩ := htouched
    have hshape := (h.untouched m hm (by rw [hkey])).2
    have hrun := run_of_call hcall (replayKey sender)
    have hset := run_none_orderedSet hrun hm hkey hshape
    rcases run_orderedSet hset with ⟨limit, cleared, byHash, hobject, hkept, hins, hcleared⟩
    obtain ⟨value, hval, hfind⟩ := find_materialize hwork hobject honly
    cases hval
    -- entries above the thresholds are in the materialized set
    have hlive : ∀ hash tag, byHash.lookup hash = some tag → tag ∈ tags t mods (replayKey sender) →
        hash ∈ liveEntries ((t.withBase working).storedSet (replayKey sender)) := by
      intro hash tag hlook htag
      have hlt : cleared < tag := hcleared tag (h.kept _ mem_cons_self tag htag)
        fun threshold hm => h.threshold_lt htag hm
      obtain ⟨limit', hstor⟩ := storedSet_of_find hfind
      rw [hstor]
      exact mem_liveEntries (mem_sortedEntries hlook hlt) hlt
    constructor
    · intro hash hin
      obtain ⟨tag, htag⟩ := Finmap.mem_iff.1 hin
      have hlook : byHash.lookup hash = some tag := hkept hash tag htag
      have hmem : tag ∈ tags t mods (replayKey sender) := mem_tags_of_live htag
      exact hlive hash tag hlook hmem
    · intro tag hash hmem
      obtain ⟨hnew, hlook⟩ := hins tag hash hmem
      have htag : tag ∈ tags t mods (replayKey sender) :=
        mem_append_left _ (mem_filterMap.2 ⟨_, mem_filter.2 ⟨hmem, by simp⟩, rfl⟩)
      exact ⟨hnew, hlive hash tag hlook htag⟩
  · have hsame : working.find (groundhogQualifiedKey t.shardID (replayKey sender)) =
        t.base.find (groundhogQualifiedKey t.shardID (replayKey sender)) := by
      apply find_materialize_of_ne hwork
      intro k hk heq
      obtain ⟨m, hm, rfl⟩ := hmodified k hk
      exact htouched ⟨m, hm, honly m.key hk heq⟩
    rw [storedSet_congr hsame]
    refine ⟨fun hash hin => hin, ?_⟩
    intro tag hash hmem
    exact absurd ⟨_, hmem, rfl⟩ htouched

/-! ## Runs of blocks -/

section

variable (codec : Codec) (digests : Digests) (root : (String → Option String) → String)
  (e : GroundhogExecutor)

structure Executed where
  block : Block
  base : Snapshot
  outcome : Except String GroundhogResult

def Executed.table (x : Executed) : TableBase :=
  TableBase.new codec x.block.shardID x.base e.orderedSetLimit

def Executed.modifications (x : Executed) : List Modification :=
  ((executeAttempts digests e x.block.shardID x.base x.block.txList).map
    Attempt.modifications).flatten

def Executed.transfers (x : Executed) : List SignedTransaction :=
  match x.outcome with
  | .error _ => []
  | .ok result => ((x.block.txList.zip result.receipts).filter fun p =>
    p.2.success && isTransfer p.1).map Prod.fst

/-- Blocks one after another; a block with a conflict leaves the state as it was.  The workers of
each block may do something else. -/
def history (workers : Nat → Workers) : Nat → Snapshot → List Block → List Executed
  | _, _, [] => []
  | n, base, b :: blocks =>
    let outcome := executeBlock codec digests root e (workers n) b base
    let next := match outcome with
      | .ok result => result.stateUpdates
      | .error _ => base
    ⟨b, base, outcome⟩ :: history workers (n + 1) next blocks

/-- Every block of the run leaves the replay sets of the run's senders in place, and a transaction
identifier belongs to one sender. -/
structure RunIntact (shardID : String) (workers : Nat → Workers) (base : Snapshot)
    (blocks : List Block) : Prop where
  shard : ∀ b ∈ blocks, b.shardID = shardID
  sender : ∀ item ∈ blocks.flatMap Block.txList, ∀ item' ∈ blocks.flatMap Block.txList,
    item.txID = item'.txID → item.sender = item'.sender
  intact : ∀ x ∈ history codec digests root e workers 0 base blocks,
    ∀ item ∈ blocks.flatMap Block.txList,
      ReplayIntact (x.table codec e) (x.modifications digests e) item.sender

def replays (shardID : String) (base : Snapshot) (sender : String) : Finmap fun _ : String => Nat :=
  TableBase.liveEntries
    ((TableBase.new codec shardID base e.orderedSetLimit).storedSet (replayKey sender))

variable {codec digests root e}

variable {base : Snapshot} {sender shardID : String} {b : Block} {workers : Workers}
  {blocks : List Block} {n : Nat}

lemma executeAttempts_key_ne {items : List SignedTransaction} :
    ∀ ms ∈ (executeAttempts digests e shardID base items).map Attempt.modifications,
      ∀ m ∈ ms, m.key ≠ "" := by
  intro ms hms m hm
  obtain ⟨attempt, hatt, rfl⟩ := mem_map.1 hms
  obtain ⟨entry, -, rfl⟩ := mem_map.1 hatt
  exact interpretTransaction_key_ne hm

/-- Transactions that workers reserve concurrently, under the locks of their keys, leave the objects
and the conflicts of a serial order.  The orders are those in which the transaction number `k` to
finish is among the first `k` and as many more as there are workers. -/
theorem reservations_linearizable (t : TableBase) (objects : Objects)
    (items : List SignedTransaction) (outcome : Objects × List (Option Conflict)) :
    let calls := (executeAttempts digests e shardID base items).map Attempt.modifications
    t.Reserves (workerCountFor e items.length) objects calls outcome ↔
      ∃ order : List (Fin calls.length), order.Nodup ∧ (∀ i, i ∈ order) ∧
        (∀ k i, order[k]? = some i → i.val < k + workerCountFor e items.length) ∧
        outcome = (t.operations.serial objects (order.map calls.get),
          ofFn (failureIn t.operations calls.get objects order)) := by
  intro calls
  have hlocks : ∀ i, ∀ m ∈ calls.get i, m.key ∈ lockKeys (calls.get i) := fun i m hm =>
    mem_lockKeys hm (executeAttempts_key_ne _ (get_mem calls i) m hm)
  constructor
  · rintro ⟨conflicts, hcompleted, hconflicts⟩
    obtain ⟨order, hlinear, hfeasible⟩ := completed_linear hlocks hcompleted
    -- the order determines the conflicts
    obtain ⟨hobjects, rfl⟩ := hlinear.unique (linear_of_order hlinear.1 hlinear.2.1)
    exact ⟨order, hlinear.1, hlinear.2.1, hfeasible, Prod.ext hobjects hconflicts⟩
  · rintro ⟨order, hnd, hall, hfeasible, rfl⟩
    refine ⟨_, completed_of_order hlocks (fun _ => lockKeys_nodup _)
      (linear_of_order hnd hall) hfeasible, rfl⟩

variable {result : GroundhogResult} {item : SignedTransaction} {x : Executed}

/-- A block that goes through: its modifications are reserved in some order, and the state is made
of the objects. -/
lemma executeBlock_eq_ok (h : executeBlock codec digests root e workers b base = .ok result) :
    ∃ (mods : List Modification) (objects : Objects),
      mods.Perm
        ((executeAttempts digests e b.shardID base b.txList).map Attempt.modifications).flatten ∧
      (new codec b.shardID base e.orderedSetLimit).operations.call ∅ mods = .ok objects ∧
      (new codec b.shardID base e.orderedSetLimit).materialize objects = .ok result.stateUpdates ∧
      result.receipts = (executeAttempts digests e b.shardID base b.txList).map
        (GroundhogReceipt.of b (root result.stateUpdates.find)) := by
  unfold executeBlock at h
  simp only at h
  split at h
  · next hok =>
    obtain ⟨working, hwork, rfl⟩ := map_eq_ok.1 h
    rcases (workers.reserves _ _ _ _ (workerCountFor_pos e _) executeAttempts_key_ne).exists_order
        executeAttempts_key_ne hok
      with ⟨order, hperm, hcall⟩
    exact ⟨order.flatten, _, hperm.flatten, hcall, hwork, rfl⟩
  · cases h

lemma ReplayIntact.perm {t : TableBase} {mods mods' : List Modification}
    (h : ReplayIntact t mods sender) (hperm : mods'.Perm mods) : ReplayIntact t mods' sender where
  untouched m hm := h.untouched m (hperm.subset hm)
  kept threshold hthr tag htag := by
    apply h.kept
    · rcases mem_cons.1 hthr with rfl | hmem
      · exact mem_cons_self
      · exact mem_cons_of_mem _ (((hperm.filter _).filterMap _).subset hmem)
    · rcases mem_append.1 htag with hmem | hmem
      · exact mem_append_left _ (((hperm.filter _).filterMap _).subset hmem)
      · exact mem_append_right _ hmem

lemma zip_map_zipIdx {α β : Type} (l : List α) (g : α × Nat → β) :
    l.zip (l.zipIdx.map g) = l.zipIdx.map fun p => (p.1, g p) := by
  calc l.zip (l.zipIdx.map g) =
    (l.zipIdx.map Prod.fst).zip (l.zipIdx.map g) := by rw [zipIdx_map_fst]
    _ = l.zipIdx.map fun p => (p.1, g p) := zip_map' ..

lemma mem_txList_of_transfers (h : item ∈ x.transfers) : item ∈ x.block.txList := by
  unfold Executed.transfers at h
  split at h
  · cases h
  · obtain ⟨p, hp, rfl⟩ := mem_map.1 h
    exact (of_mem_zip (mem_filter.1 hp).1).1

lemma insert_mem_of_transfers (h : item ∈ Executed.transfers
      ⟨b, base, executeBlock codec digests root e workers b base⟩) :
    (⟨replayKey item.sender, .orderedSetInsert (item.nonce + 1) item.txID⟩ : Modification) ∈
      Executed.modifications digests e ⟨b, base,
        executeBlock codec digests root e workers b base⟩ := by
  unfold Executed.transfers at h
  cases hres : executeBlock codec digests root e workers b base with
  | error err =>
    rw [hres] at h
    cases h
  | ok result =>
    obtain ⟨_, _, -, -, -, hreceipts⟩ := executeBlock_eq_ok hres
    rw [hres] at h
    simp only [hreceipts, executeAttempts, map_map] at h
    obtain ⟨⟨item', receipt⟩, hpair, rfl⟩ := mem_map.1 h
    obtain ⟨hzip, hsucc⟩ := mem_filter.1 hpair
    -- receipts stand in block order
    rw [zip_map_zipIdx] at hzip
    obtain ⟨entry, hent, heq⟩ := mem_map.1 hzip
    cases heq
    rw [Bool.and_eq_true] at hsucc
    have hok : (interpretTransaction digests e b.shardID base entry.2 entry.1).terminalError =
        "" := by
      simpa [GroundhogReceipt.of] using hsucc.1
    apply mem_flatten.2
    refine ⟨_, mem_map_of_mem (mem_map_of_mem hent), ?_⟩
    exact mem_modifications_of_transfer hsucc.2 hok

/-- One block of a run: replay sets keep their entries, and get those of the block's transfers,
which are new. -/
lemma replays_step (h : executeBlock codec digests root e workers b base = .ok result)
    (hintact : ReplayIntact (new codec b.shardID base e.orderedSetLimit)
      (Executed.modifications digests e ⟨b, base, .ok result⟩) sender) :
    (∀ hash ∈ replays codec e b.shardID base sender,
        hash ∈ replays codec e b.shardID result.stateUpdates sender) ∧
      ∀ item ∈ Executed.transfers ⟨b, base, .ok result⟩, item.sender = sender →
        item.txID ∉ replays codec e b.shardID base sender ∧
          item.txID ∈ replays codec e b.shardID result.stateUpdates sender := by
  obtain ⟨mods, objects, hperm, hcall, hwork, -⟩ := executeBlock_eq_ok h
  have hkept := replay_kept hcall hwork (hintact.perm hperm)
  refine ⟨hkept.1, ?_⟩
  rintro item hitem rfl
  rw [← h] at hitem
  exact hkept.2 _ _ (hperm.symm.subset (insert_mem_of_transfers hitem))

lemma not_mem_transfers_of_replays {hash : String} {workers : Nat → Workers}
    (hshard : ∀ b ∈ blocks, b.shardID = shardID)
    (hintact : ∀ x ∈ history codec digests root e workers n base blocks,
      ReplayIntact (x.table codec e) (x.modifications digests e) sender)
    (hhash : hash ∈ replays codec e shardID base sender) :
    ∀ x ∈ history codec digests root e workers n base blocks, ∀ item ∈ x.transfers,
      item.sender = sender → item.txID ≠ hash := by
  induction blocks generalizing n base with
  | nil => simp [history]
  | cons b blocks ih =>
    have hb : b.shardID = shardID := hshard b (by simp)
    have hfirst := hintact _ mem_cons_self
    subst hb
    intro x hx item hitem hsender
    cases hout : executeBlock codec digests root e (workers n) b base with
    | error err =>
      unfold history at hx hintact
      simp only [hout] at hx hintact
      rcases mem_cons.1 hx with rfl | hx
      · cases hitem
      · exact ih (fun b' hb' => hshard b' (mem_cons_of_mem _ hb'))
          (fun x hx => hintact x (mem_cons_of_mem _ hx)) hhash x hx item hitem hsender
    | ok result =>
      have hstep := replays_step hout hfirst
      unfold history at hx hintact
      simp only [hout] at hx hintact
      rcases mem_cons.1 hx with rfl | hx
      · rintro rfl
        exact (hstep.2 item hitem hsender).1 hhash
      · exact ih (fun b' hb' => hshard b' (mem_cons_of_mem _ hb'))
          (fun x hx => hintact x (mem_cons_of_mem _ hx)) (hstep.1 hash hhash) x hx item
          hitem hsender

lemma block_mem_of_history {workers : Nat → Workers}
    (hx : x ∈ history codec digests root e workers n base blocks) : x.block ∈ blocks := by
  induction blocks generalizing n base with
  | nil => simp [history] at hx
  | cons b blocks ih =>
    rcases mem_cons.1 hx with rfl | hx
    · exact mem_cons_self
    · exact mem_cons_of_mem _ (ih hx)

lemma pairwise_history {workers : Nat → Workers} (items : List SignedTransaction)
    (hitems : ∀ b ∈ blocks, ∀ item ∈ b.txList, item ∈ items)
    (hshard : ∀ b ∈ blocks, b.shardID = shardID)
    (hsender : ∀ item ∈ items, ∀ item' ∈ items, item.txID = item'.txID → item.sender = item'.sender)
    (hintact : ∀ x ∈ history codec digests root e workers n base blocks, ∀ item ∈ items,
      ReplayIntact (x.table codec e) (x.modifications digests e) item.sender) :
    (history codec digests root e workers n base blocks).Pairwise fun earlier later =>
      ∀ item ∈ earlier.transfers, ∀ item' ∈ later.transfers, item.txID ≠ item'.txID := by
  induction blocks generalizing n base with
  | nil => exact List.Pairwise.nil
  | cons b blocks ih =>
    have hitems' : ∀ b' ∈ blocks, ∀ item ∈ b'.txList, item ∈ items :=
      fun b' hb' => hitems b' (mem_cons_of_mem _ hb')
    have hshard' : ∀ b' ∈ blocks, b'.shardID = shardID :=
      fun b' hb' => hshard b' (mem_cons_of_mem _ hb')
    have hfirst := hintact _ mem_cons_self
    unfold history at hintact ⊢
    refine pairwise_cons.2 ⟨?_, ?_⟩
    · intro later hlater item hitem item' hitem' hid
      have hmem := hitems b mem_cons_self item (mem_txList_of_transfers hitem)
      cases hout : executeBlock codec digests root e (workers n) b base with
      | error err =>
        rw [hout] at hitem
        cases hitem
      | ok result =>
        simp only [hout] at hlater hitem hintact hfirst
        have hstep := replays_step hout (hfirst item hmem)
        have hin := (hstep.2 item hitem rfl).2
        -- the later transfer has the same sender, whose replay set has the identifier
        have hb : b.shardID = shardID := hshard b mem_cons_self
        rw [hb] at hin
        have hlaterBlock := block_mem_of_history hlater
        refine not_mem_transfers_of_replays hshard'
          (fun x hx => hintact x (mem_cons_of_mem _ hx) item hmem) hin later hlater item'
          hitem' ?_ hid.symm
        exact hsender item' (hitems' _ hlaterBlock item' (mem_txList_of_transfers hitem')) item
          hmem hid.symm
    · exact ih hitems' hshard' fun x hx => hintact x (mem_cons_of_mem _ hx)

/-- Over a run of blocks that leave replay sets in place no transfer is committed twice. -/
theorem replay_protected (shardID : String) (workers : Nat → Workers) (base : Snapshot)
    (blocks : List Block) (h : RunIntact codec digests root e shardID workers base blocks) :
    (history codec digests root e workers 0 base blocks).Pairwise fun earlier later =>
      ∀ item ∈ earlier.transfers, ∀ item' ∈ later.transfers, item.txID ≠ item'.txID := by
  apply pairwise_history (blocks.flatMap Block.txList) _ h.shard h.sender h.intact
  intro b hb item hitem
  exact mem_flatMap.2 ⟨b, hb, hitem⟩

end

/-! ## A cleared replay set -/

def setCode : Code OrderedSet :=
  (Code.int.pair (Code.nat.pair (Code.nat.pair Code.string).list)).imap
    (fun set => (set.limit, set.cleared, set.entries)) (fun p => ⟨p.1, p.2.1, p.2.2⟩) (fun _ => rfl)

def digitCodec : Codec where
  marshal set := String.ofList ('#' :: (setCode.put set).map fun b => if b then '1' else '0')
  unmarshal value out :=
    match setCode.take ((value.toList.drop 1).map fun c => c = '1') with
    | some (set, _) => set
    | none => out
  unmarshal_marshal set out _ := by
    have hdigits :
        ((setCode.put set).map fun b => if b then '1' else '0').map (fun c => decide (c = '1'))
        = setCode.put set := by
      rw [map_map]
      conv_rhs => rw [← map_id (setCode.put set)]
      apply map_congr_left
      intro b _
      cases b <;> rfl
    have htake := setCode.take_put set []
    rw [append_nil] at htake
    simp only [String.toList_ofList, drop_succ_cons, drop_zero, hdigits, htake]
  marshal_ne set := Text.trimSpace_ne_of_head (String.toList_ofList ..) (by decide)

def digestTexts : Digests where
  directAccess logicalTxID key semantics previous :=
    "direct(" ++ logicalTxID ++ "," ++ key ++ "," ++ semantics ++ "," ++ previous ++ ")"
  bytesTarget logicalTxID key payload semantics :=
    "bytes(" ++ logicalTxID ++ "," ++ key ++ "," ++ payload ++ "," ++ semantics ++ ")"

def transferOf (txID : String) (nonce : Nat) : SignedTransaction where
  txID := txID
  sender := "alice"
  receiver := "bob"
  nonce := nonce
  value := 10

/-- Anyone may clear the replay set of `alice`. -/
def clearing : SignedTransaction where
  txID := "c"
  accessListSchema := "v5"
  accessList := [{ key := "groundhog:replay:alice", mode := .write
                   updateSemantics := "ordered_set_clear", delta := 1 }]

def blockOf (height : Nat) (items : List SignedTransaction) : Block :=
  { shardID := "s", height := height, blockHash := "b" ++ toString height, txList := items }

def clearedRun : List Block :=
  [blockOf 1 [transferOf "t" 0], blockOf 2 [clearing], blockOf 3 [transferOf "t" 0]]

/-- The same transfer goes through before and after the clearing. -/
theorem replayed_after_clear :
    ¬ (history digitCodec digestTexts (fun _ => "") {} (fun _ => Workers.inTurn) 0 ∅
      clearedRun).Pairwise fun earlier later =>
        ∀ item ∈ earlier.transfers, ∀ item' ∈ later.transfers, item.txID ≠ item'.txID := by
  decide +kernel

def plainRun : List Block :=
  [blockOf 1 [transferOf "t" 0], blockOf 2 [transferOf "t" 0], blockOf 3 [transferOf "u" 1]]

theorem replay_protected_plainRun :
    RunIntact digitCodec digestTexts (fun _ => "") {} "s" (fun _ => Workers.inTurn) ∅ plainRun ∧
      (history digitCodec digestTexts (fun _ => "") {} (fun _ => Workers.inTurn) 0 ∅
        plainRun).Pairwise fun earlier later =>
          ∀ item ∈ earlier.transfers, ∀ item' ∈ later.transfers, item.txID ≠ item'.txID := by
  have hintact : RunIntact digitCodec digestTexts (fun _ => "") {} "s"
      (fun _ => Workers.inTurn) ∅ plainRun :=
    ⟨by decide, by decide, by decide +kernel⟩
  exact ⟨hintact, replay_protected "s" _ ∅ plainRun hintact⟩

end ChainLab.Execution.Groundhog
