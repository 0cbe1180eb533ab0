import ChainLab.State.Wal

/-!
# The live root

`DB.Root` reads the commitment, and the replay of the log computes roots from the values, so the two
have to stay together.  Every operation writes the same entry to both, except
`ApplyDeterministicBatch` on an ordering no-op: the values stay, and the commitment gets the entry
that the values have for the key, which is an empty one when they have none.
-/

namespace ChainLab.State

open List

variable {sha : Sha}

/-! ## Batches -/

/-- The items that a batch gets to: those before the first that fails. -/
def applied (sha : Sha) (nameSpace : String) : Snapshot → List StateKV → List StateKV
  | _, [] => []
  | values, item :: updates =>
    match applyStateKV sha values (qualifiedKey nameSpace item.key) item with
    | .error _ => []
    | .ok values => item :: applied sha nameSpace values updates

def noopKeys (nameSpace : String) (items : List StateKV) : List String :=
  (items.filter StateKV.orderingNoop).map fun item => qualifiedKey nameSpace item.key

lemma noopKeys_cons (nameSpace : String) (item : StateKV) (items : List StateKV) :
    noopKeys nameSpace (item :: items) =
      (if item.orderingNoop then [qualifiedKey nameSpace item.key] else []) ++
        noopKeys nameSpace items := by
  cases hnoop : item.orderingNoop <;> simp [noopKeys, hnoop]

/-- The map has the entries of the values, and an empty one for those of the keys that have none. -/
def Padded (values : Snapshot) (keys : List String) (m : Snapshot) : Prop :=
  ∀ q, m.find q = if values.find q = none ∧ q ∈ keys then some "" else values.find q

lemma padded_nil (values : Snapshot) : Padded values [] values := by
  intro q
  simp

variable {item : StateKV} {key : String} {m values values' : Snapshot} {keys : List String}

lemma applyStateKV_cases (h : applyStateKV sha values key item = .ok values') :
    (item.orderingNoop = true ∧ values' = values) ∨
      (item.orderingNoop = false ∧ ∃ value, values' = values.put key value) := by
  unfold applyStateKV at h
  split at h
  · next hnoop => exact .inl ⟨hnoop, (Except.ok.inj h).symm⟩
  next hnoop =>
  have hfalse : item.orderingNoop = false := by simpa using hnoop
  split at h
  · exact .inr ⟨hfalse, _, (Except.ok.inj h).symm⟩
  split at h
  · cases h
  · exact .inr ⟨hfalse, _, (Except.ok.inj h).symm⟩

lemma Padded.apply (h : Padded values keys m)
    (happly : applyStateKV sha values key item = .ok values') :
    Padded values' (keys ++ if item.orderingNoop then [key] else [])
    (m.put key (values'.get key)) := by
  intro q
  rw [GoMap.find_put]
  rcases applyStateKV_cases happly with ⟨hnoop, rfl⟩ | ⟨hnoop, value, rfl⟩
  · by_cases hq : q = key
    · subst hq
      cases hfind : values'.find q with
      | none => simp [hnoop, GoMap.get, hfind]
      | some v => simp [GoMap.get, hfind]
    · simp [hq, hnoop, h q]
  · by_cases hq : q = key
    · subst hq
      simp [GoMap.get]
    · simp [hq, hnoop, h q, GoMap.find_put]

lemma commits_applyDeterministicBatch (updates : List StateKV) (db : DB)
    (hcomm : Tree.Commits sha db.commitment m) (h : Padded db.values keys m) :
    ∃ m', Tree.Commits sha (db.applyDeterministicBatch sha updates).1.commitment m' ∧
      Padded (db.applyDeterministicBatch sha updates).1.values
        (keys ++ noopKeys db.nameSpace (applied sha db.nameSpace db.values updates)) m' := by
  induction updates generalizing db keys m with
  | nil => exact ⟨m, hcomm, by simpa [noopKeys, applied, DB.applyDeterministicBatch] using h⟩
  | cons item updates ih =>
    unfold DB.applyDeterministicBatch applied
    cases happly : applyStateKV sha db.values (db.key item.key) item with
    | error err =>
      rw [DB.key] at happly
      exact ⟨m, hcomm, by simpa [happly, noopKeys] using h⟩
    | ok values =>
      have hstep := h.apply happly
      have htree := hcomm.insert (db.key item.key) (values.get (db.key item.key))
      rw [DB.key] at happly
      rcases ih { db with values := values, commitment := _ } htree hstep with ⟨m', hcomm', hpadded⟩
      refine ⟨m', hcomm', ?_⟩
      simpa [happly, DB.key, noopKeys_cons] using hpadded

/-- A batch leaves an entry for the keys that had one, and for those of its writes. -/
lemma find_applyDeterministicBatch (updates : List StateKV) (db : DB) (q : String) :
    (db.applyDeterministicBatch sha updates).1.values.find q ≠ none ↔ db.values.find q ≠ none ∨
      ∃ item ∈ applied sha db.nameSpace db.values updates,
        item.orderingNoop = false ∧ qualifiedKey db.nameSpace item.key = q := by
  induction updates generalizing db with
  | nil => simp [applied, DB.applyDeterministicBatch]
  | cons item updates ih =>
    unfold DB.applyDeterministicBatch applied
    cases happly : applyStateKV sha db.values (db.key item.key) item with
    | error err =>
      rw [DB.key] at happly
      simp [happly]
    | ok values =>
      rw [DB.key] at happly
      simp only [happly, exists_mem_cons_iff]
      refine (ih _).trans ?_
      rcases applyStateKV_cases happly with ⟨hnoop, rfl⟩ | ⟨hnoop, value, rfl⟩
      · simp [hnoop]
      by_cases hq : q = qualifiedKey db.nameSpace item.key
      · simp [hq, hnoop]
      · simp [GoMap.find_put, hq, Ne.symm hq]

lemma applyDeterministicBatch_spec (sha : Sha) (updates : List StateKV) (db : DB) :
    match applyStateKVs sha db.nameSpace db.values updates with
    | .ok values => (db.applyDeterministicBatch sha updates).2 = none ∧
        (db.applyDeterministicBatch sha updates).1.values = values
    | .error err => (db.applyDeterministicBatch sha updates).2 = some err := by
  induction updates generalizing db with
  | nil => exact ⟨rfl, rfl⟩
  | cons item updates ih =>
    simp only [applyStateKVs, foldlM_cons]
    unfold DB.applyDeterministicBatch
    cases happly : applyStateKV sha db.values (db.key item.key) item with
    | error err =>
      rw [DB.key] at happly
      rw [happly]
      rfl
    | ok next =>
      rw [DB.key] at happly
      rw [happly]
      exact ih { db with values := next, commitment := _ }

lemma values_applyDeterministicBatch (updates : List StateKV) (db : DB)
    (h : applyStateKVs sha db.nameSpace db.values updates = .ok values) :
    (db.applyDeterministicBatch sha updates).1.values = values := by
  have hall := applyDeterministicBatch_spec sha updates db
  rw [h] at hall
  exact hall.2

/-! ## Runs -/

inductive Op where
  | set (key value : String)
  | applyBatch (updates : Snapshot)
  | applyDeterministicBatch (updates : List StateKV)
  | restore (snapshot : Snapshot)
  | load (disk : Disk)

def Op.apply (sha : Sha) (fmt : Format) (db : DB) : Op → DB
  | .set key value => db.set sha key value
  | .applyBatch updates => db.applyBatch sha updates
  | .applyDeterministicBatch updates => (db.applyDeterministicBatch sha updates).1
  | .restore snapshot => db.restore sha snapshot
  | .load disk => (State.load sha fmt db disk).1

def run (sha : Sha) (fmt : Format) (db : DB) (ops : List Op) : DB :=
  ops.foldl (Op.apply sha fmt) db

def Matches (sha : Sha) (db : DB) : Prop :=
  db.root sha = snapshotRoot sha db.values

/-- Each ordering no-op that a batch gets to is for a key that has a value before the batch, or that
the batch writes. -/
def Op.Present (sha : Sha) (db : DB) : Op → Prop
  | .applyDeterministicBatch updates =>
    ∀ item ∈ applied sha db.nameSpace db.values updates, item.orderingNoop = true →
      db.values.find (db.key item.key) ≠ none ∨
        ∃ other ∈ applied sha db.nameSpace db.values updates,
          other.orderingNoop = false ∧ db.key other.key = db.key item.key
  | _ => True

instance (sha : Sha) (db : DB) : (op : Op) → Decidable (op.Present sha db)
  | .applyDeterministicBatch updates =>
    inferInstanceAs (Decidable (∀ item ∈ applied sha db.nameSpace db.values updates, _ → _))
  | .set .. | .applyBatch _ | .restore _ | .load _ => .isTrue trivial

/-- The roots that a live commit of the batch records are the roots that its replay computes. -/
def ReplayMatches (sha : Sha) (db : DB) (updates : List StateKV) : Prop :=
  ∀ values, applyStateKVs sha db.nameSpace db.values updates = .ok values →
    db.root sha = snapshotRoot sha db.values ∧
      (db.applyDeterministicBatch sha updates).1.root sha = snapshotRoot sha values

def DB.Sound (sha : Sha) (db : DB) : Prop :=
  Tree.Commits sha db.commitment db.values

variable {fmt : Format} {db : DB}

lemma DB.Sound.matches (h : db.Sound sha) : Matches sha db :=
  h.hash

lemma Matches.sound (hsha : sha.CollisionFree) (h : Matches sha db) : db.Sound sha :=
  Tree.Commits.of_hash hsha h

section

variable (h : db.Sound sha)

include h

lemma DB.Sound.set (key value : String) : (db.set sha key value).Sound sha :=
  Tree.Commits.insert h (db.key key) value

lemma DB.Sound.applyBatch (updates : Snapshot) : (db.applyBatch sha updates).Sound sha := by
  unfold DB.applyBatch
  generalize updates.entries = entries
  induction entries generalizing db with
  | nil => exact h
  | cons e entries ih => exact ih (h.set e.1 e.2)

lemma DB.Sound.applyDeterministicBatch_iff (updates : List StateKV) :
    (db.applyDeterministicBatch sha updates).1.Sound sha ↔
      (Op.applyDeterministicBatch updates).Present sha db := by
  have hpresent : (Op.applyDeterministicBatch updates).Present sha db ↔
      ∀ key ∈ noopKeys db.nameSpace (applied sha db.nameSpace db.values updates),
        (db.applyDeterministicBatch sha updates).1.values.find key ≠ none := by
    simp only [Op.Present, noopKeys, forall_mem_map, mem_filter, find_applyDeterministicBatch,
      and_imp, DB.key]
  rw [hpresent]
  rcases commits_applyDeterministicBatch updates db h (padded_nil db.values)
      with ⟨m, hcomm, hpadded⟩
  rw [nil_append] at hpadded
  constructor
  · intro hsound key hkey hnone
    have hfind := hpadded key
    rw [if_pos ⟨hnone, hkey⟩, ← hcomm.find, hsound.find, hnone] at hfind
    cases hfind
  · intro hpres
    apply hcomm.congr
    intro q
    rw [hpadded q]
    split
    · next hq => exact absurd hq.1 (hpres q hq.2)
    · rfl

lemma DB.Sound.load (disk : Disk) : (State.load sha fmt db disk).1.Sound sha := by
  unfold State.load
  split
  · exact h
  split
  · exact h
  split
  · exact h
  dsimp only
  split
  · exact h
  · exact commits_treeOf sha _

lemma DB.Sound.apply {op : Op} (hop : op.Present sha db) : (op.apply sha fmt db).Sound sha := by
  cases op with
  | set key value => exact h.set key value
  | applyBatch updates => exact h.applyBatch updates
  | applyDeterministicBatch updates => exact (h.applyDeterministicBatch_iff updates).2 hop
  | restore snapshot => exact commits_treeOf sha snapshot
  | load disk => exact h.load disk

lemma DB.Sound.run {ops : List Op}
    (hops : ∀ pre op, pre ++ [op] <+: ops → op.Present sha (run sha fmt db pre)) :
    ∀ pre, pre <+: ops → (State.run sha fmt db pre).Sound sha := by
  intro pre hpre
  induction pre using reverseRecOn with
  | nil => exact h
  | append_singleton pre op ih =>
    rw [State.run, foldl_append]
    exact (ih ((prefix_append _ _).trans hpre)).apply (hops pre op hpre)

end

/-- Along a run the root is the one of the values, and live commits record the roots of their
replay, exactly if every ordering no-op of a batch is for a key that has a value or gets one. -/
theorem root_matches_iff (hsha : sha.CollisionFree) (fmt : Format) (nameSpace : String)
    (ops : List Op) :
    ((∀ pre, pre <+: ops → Matches sha (run sha fmt (DB.new nameSpace) pre)) ∧
      ∀ pre updates, pre ++ [.applyDeterministicBatch updates] <+: ops →
        ReplayMatches sha (run sha fmt (DB.new nameSpace) pre) updates) ↔
      ∀ pre op, pre ++ [op] <+: ops → op.Present sha (run sha fmt (DB.new nameSpace) pre) := by
  have happend : ∀ pre op, run sha fmt (DB.new nameSpace) (pre ++ [op]) =
      op.apply sha fmt (run sha fmt (DB.new nameSpace) pre) := by
    intro pre op
    simp [run]
  constructor
  · rintro ⟨hmatches, -⟩ pre op hpre
    have hbefore := (hmatches pre ((prefix_append _ _).trans hpre)).sound hsha
    have hafter := (hmatches (pre ++ [op]) hpre).sound hsha
    rw [happend] at hafter
    cases op with
    | applyDeterministicBatch updates =>
      exact (hbefore.applyDeterministicBatch_iff updates).1 hafter
    | _ => exact trivial
  · intro hpresent
    have hnew : (DB.new nameSpace).Sound sha := Tree.Commits.nil
    have hsound := hnew.run hpresent
    refine ⟨fun pre hpre => (hsound pre hpre).matches, ?_⟩
    intro pre updates hpre values hvalues
    have hbefore := hsound pre ((prefix_append _ _).trans hpre)
    have hafter := hsound (pre ++ [.applyDeterministicBatch updates]) hpre
    rw [happend] at hafter
    refine ⟨hbefore.matches, ?_⟩
    rw [← values_applyDeterministicBatch updates _ hvalues]
    exact DB.Sound.matches hafter

def noopOn (key : String) : StateKV := { key := key, orderingNoop := true, producedVersion := 2 }

theorem root_mismatch : ¬ Matches plainSha
      (run plainSha digitFormat (DB.new "s0") [.applyDeterministicBatch [noopOn "a"]]) := by
  unfold Matches
  decide +kernel

theorem root_matches_after_set :
    Matches plainSha (run plainSha digitFormat (DB.new "s0") [Op.set "a" "1"]) ∧
      Matches plainSha (run plainSha digitFormat (DB.new "s0")
        [Op.set "a" "1", .applyDeterministicBatch [noopOn "a"]]) := by
  have hall := ((root_matches_iff plainSha_collisionFree digitFormat "s0"
    [Op.set "a" "1", .applyDeterministicBatch [noopOn "a"]]).2 (by
      intro pre op hpre
      rcases pre with _ | ⟨first, _ | ⟨second, rest⟩⟩
      · cases (cons_prefix_cons.1 hpre).1
        exact trivial
      · obtain ⟨rfl, htail⟩ := cons_prefix_cons.1 hpre
        cases (cons_prefix_cons.1 htail).1
        decide +kernel
      · simpa using hpre.length_le)).1
  exact ⟨hall _ ⟨_, rfl⟩, hall _ (prefix_refl _)⟩

end ChainLab.State
