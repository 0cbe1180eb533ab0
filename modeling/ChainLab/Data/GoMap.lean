import ChainLab.Data.Run
import Mathlib.Data.List.AList
import Mathlib.Data.Finset.Card
import Mathlib.Data.List.Sort

/-!
# Finite maps

Association lists without repeated keys, read through `find`.  A map is iterated in the order of
its entry list, which stands for one of the orders a program may visit it in: every lemma below
holds for all of them.
-/

namespace ChainLab

open List

abbrev GoMap (K V : Type) := AList (fun _ : K => V)

namespace GoMap

variable {K V : Type} [DecidableEq K]

/-! ## Operations -/

def find (m : GoMap K V) (k : K) : Option V :=
  AList.lookup k m

/-- Lookup with the zero value for a missing key. -/
def get [Inhabited V] (m : GoMap K V) (k : K) : V :=
  (m.find k).getD default

def put (m : GoMap K V) (k : K) (v : V) : GoMap K V :=
  AList.insert k v m

/-- Assign `v` to `k'` in the map held at `k`. -/
def putIn {K' : Type} [DecidableEq K'] (m : GoMap K (GoMap K' V)) (k : K) (k' : K') (v : V) :
    GoMap K (GoMap K' V) :=
  m.put k (AList.insert k' v (m.get k))

def delete (m : GoMap K V) (k : K) : GoMap K V :=
  AList.erase k m

/-- Assign `f v` to every key of `votes`, in the map held at `k`. -/
def putAllIn {K' W : Type} [DecidableEq K'] (m : GoMap K (GoMap K' V)) (k : K) (votes : GoMap K' W)
    (f : W → V) : GoMap K (GoMap K' V) :=
  votes.entries.foldl (fun m e => m.putIn k e.1 (f e.2)) m

def retain (m : GoMap K V) (p : K → V → Bool) : GoMap K V where
  entries := m.entries.filter fun e => p e.1 e.2
  nodupKeys := m.nodupKeys.sublist filter_sublist

def len (m : GoMap K V) : Nat :=
  m.entries.length

def keySet (m : GoMap K V) : Finset K :=
  m.keys.toFinset

def first (m : GoMap K V) : Option V :=
  m.entries.head?.map Sigma.snd

/-! ## Lookup after an update -/

@[simp] lemma find_empty (k : K) : (∅ : GoMap K V).find k = none := rfl

@[simp] lemma find_default (k : K) : (default : GoMap K V).find k = none := rfl

@[grind =]
lemma find_put (m : GoMap K V) (k k' : K) (v : V) :
    (m.put k v).find k' = if k' = k then some v else m.find k' := by
  by_cases h : k' = k
  · subst h
    simp [find, put]
  · simp [find, put, AList.lookup_insert_ne h, h]

@[simp] lemma find_put_self (m : GoMap K V) (k : K) (v : V) : (m.put k v).find k = some v := by
  simp [find_put]

variable {k : K} {K' : Type} {m : GoMap K V} {v : V}

lemma find_put_ne (m : GoMap K V) {k' : K} (v : V) (h : k' ≠ k) :
    (m.put k v).find k' = m.find k' := by
  simp [find_put, h]

@[grind =]
lemma find_delete (m : GoMap K V) (k k' : K) :
    (m.delete k).find k' = if k' = k then none else m.find k' := by
  by_cases h : k' = k
  · subst h
    simp [find, delete]
  · simp [find, delete, AList.lookup_erase_ne h, h]

lemma find_foldl_put (f : K → V) (keys : List K) (m : GoMap K V) (q : K) :
    (keys.foldl (fun m k => m.put k (f k)) m).find q =
      if q ∈ keys then some (f q) else m.find q := by
  induction keys generalizing m with
  | nil => simp
  | cons k keys ih =>
    rw [foldl_cons, ih, find_put]
    by_cases hq : q = k
    · simp [hq]
    · simp [hq]

lemma find_foldl_put_mem {α : Type} {addr : α → K} {value : α → V} {l : List α} {a : α} (ha : a ∈ l)
    (h : ∀ b ∈ l, addr b = addr a → b = a) (m : GoMap K V) :
    (l.foldl (fun m b => m.put (addr b) (value b)) m).find (addr a) = some (value a) := by
  refine Run.foldl_of_mem (P := fun m : GoMap K V => m.find (addr a) = some (value a)) ha ?_ ?_ m
  · exact fun m => find_put_self _ _ _
  · intro m b hb hm
    rw [find_put]
    split
    · next he => rw [h b hb he.symm]
    · exact hm

section Get

variable [Inhabited V]

@[simp] lemma get_empty (k : K) : (∅ : GoMap K V).get k = default := rfl

variable {k : K} {m : GoMap K V}

lemma get_of_find {v : V} (h : m.find k = some v) : m.get k = v := by
  simp [get, h]

lemma find_of_get (h : m.get k ≠ default) : m.find k = some (m.get k) := by
  unfold get at h ⊢
  cases hf : m.find k with
  | none => simp [hf] at h
  | some v => rfl

lemma get_eq_iff {v : V} (hne : v ≠ default) : m.get k = v ↔ m.find k = some v := by
  constructor
  · intro hget
    have hfind := find_of_get (hget ▸ hne : m.get k ≠ default)
    rwa [hget] at hfind
  · exact get_of_find

@[grind =]
lemma get_put (m : GoMap K V) (k k' : K) (v : V) :
    (m.put k v).get k' = if k' = k then v else m.get k' := by
  unfold get
  rw [find_put]
  split <;> rfl

lemma get_foldl_put (keys : List K) (m : GoMap K V) (v : V) (q : K) :
    (keys.foldl (fun m k => m.put k v) m).get q = if q ∈ keys then v else m.get q := by
  rw [get, find_foldl_put fun _ => v]
  split <;> rfl

@[grind =]
lemma get_delete (m : GoMap K V) (k k' : K) :
    (m.delete k).get k' = if k' = k then default else m.get k' := by
  unfold get
  rw [find_delete]
  split <;> rfl

end Get

@[grind =]
lemma get_putIn [DecidableEq K'] (m : GoMap K (GoMap K' V)) (k j : K) (k' : K') (v : V) :
    (m.putIn k k' v).get j = if j = k then (m.get k).put k' v else m.get j :=
  get_put m k j _

lemma of_find_put {m : GoMap K V} {k j : K} {v w : V} (h : (m.put k v).find j = some w) :
    j = k ∧ w = v ∨ m.find j = some w := by
  grind

lemma of_find_delete {k j : K} {w : V} (h : (m.delete k).find j = some w) : m.find j = some w := by
  grind

lemma of_find_putIn [DecidableEq K'] {m : GoMap K (GoMap K' V)} {k j : K} {k' j' : K'} {v w : V}
    (h : ((m.putIn k k' v).get j).find j' = some w) :
    j = k ∧ j' = k' ∧ w = v ∨ (m.get j).find j' = some w := by
  grind

lemma find_eq_some_iff : m.find k = some v ↔ (⟨k, v⟩ : Σ _ : K, V) ∈ m.entries :=
  AList.mem_lookup_iff

@[grind =]
lemma find_retain (m : GoMap K V) (p : K → V → Bool) (k : K) :
    (m.retain p).find k = (m.find k).filter (p k) := by
  cases h : m.find k with
  | none =>
    have hk : k ∉ m := AList.lookup_eq_none.1 h
    have hk' : k ∉ m.retain p := by
      intro hmem
      apply hk
      obtain ⟨e, he, hek⟩ := mem_map.1 (AList.mem_keys.1 hmem)
      exact AList.mem_keys.2 (mem_map.2 ⟨e, (mem_filter.1 he).1, hek⟩)
    exact AList.lookup_eq_none.2 hk'
  | some v =>
    have hmem := find_eq_some_iff.1 h
    by_cases hp : p k v = true
    · have : (⟨k, v⟩ : Σ _ : K, V) ∈ (m.retain p).entries := mem_filter.2 ⟨hmem, hp⟩
      simp [Option.filter, hp, find_eq_some_iff.2 this]
    · have hnone : (m.retain p).find k = none := by
        cases h' : (m.retain p).find k with
        | none => rfl
        | some v' =>
          have hmem' := mem_filter.1 (find_eq_some_iff.1 h')
          have hvv : v' = v := by
            have := find_eq_some_iff.2 hmem'.1
            simpa [h] using this.symm
          subst hvv
          exact absurd hmem'.2 hp
      simp [Option.filter, hp, hnone]

lemma find_get_putAllIn {W : Type} [DecidableEq K'] (m : GoMap K (GoMap K' V)) (k j : K)
    (votes : GoMap K' W) (f : W → V) (node : K') :
    ((m.putAllIn k votes f).get j).find node =
      if j = k then ((votes.find node).map f).or ((m.get j).find node)
        else (m.get j).find node := by
  -- Keys of the entry list are distinct, so the induction carries the list and its lookup.
  have haux : ∀ (l : List (Σ _ : K', W)) (m : GoMap K (GoMap K' V)), l.NodupKeys →
      ((l.foldl (fun m e => m.putIn k e.1 (f e.2)) m).get j).find node =
        if j = k then ((l.dlookup node).map f).or ((m.get j).find node)
        else (m.get j).find node := by
    intro l
    induction l with
    | nil =>
      intro m _
      simp
    | cons e l ih =>
      intro m hnd
      obtain ⟨hnot, htail⟩ := nodupKeys_cons.1 hnd
      rw [foldl_cons, ih _ htail, get_putIn]
      by_cases hj : j = k
      · subst hj
        by_cases hnode : node = e.1
        · subst hnode
          have hnone : l.dlookup e.1 = none := dlookup_eq_none.2 hnot
          have hsome : (e :: l).dlookup e.1 = some e.2 := dlookup_cons_eq l e.1 e.2
          simp [hnone, hsome]
        · simp [dlookup_cons_ne l e hnode, find_put, hnode]
      · simp [hj]
  exact haux votes.entries m votes.nodupKeys

lemma get_get_putAllIn_const {W : Type} [DecidableEq K'] [Inhabited V] (m : GoMap K (GoMap K' V))
    (k : K) (votes : GoMap K' W) (v : V) (node : K') :
    ((m.putAllIn k votes fun _ => v).get k).get node = v ∨
      ((m.putAllIn k votes fun _ => v).get k).get node = (m.get k).get node := by
  have hfind := find_get_putAllIn m k k votes (fun _ => v) node
  rw [if_pos rfl] at hfind
  cases hnode : votes.find node with
  | none =>
    right
    unfold get at hfind ⊢
    simp [hfind, hnode]
  | some w =>
    left
    exact get_of_find (by simp [hfind, hnode])

lemma find_retain_eq_some {p : K → V → Bool} :
    (m.retain p).find k = some v ↔ m.find k = some v ∧ p k v = true := by
  rw [find_retain]
  exact Option.filter_eq_some_iff

lemma find_get_retain [DecidableEq K'] {m : GoMap K (GoMap K' V)} {p : K → GoMap K' V → Bool}
    {k' : K'} (h : ((m.retain p).get k).find k' = some v) :
    (m.get k).find k' = some v ∧ p k (m.get k) = true := by
  cases hfind : m.find k with
  | none => simp [get, find_retain, hfind] at h
  | some inner =>
    by_cases hp : p k inner = true
    · simpa [get, find_retain, hfind, Option.filter, hp] using h
    · simp [get, find_retain, hfind, Option.filter, hp] at h

/-! ## Size and keys -/

lemma mem_keySet : k ∈ m.keySet ↔ ∃ v, m.find k = some v := by
  rw [keySet, mem_toFinset]
  exact (AList.lookup_isSome (s := m)).symm.trans Option.isSome_iff_exists

@[simp] lemma keySet_put (m : GoMap K V) (k : K) (v : V) :
    (m.put k v).keySet = insert k m.keySet := by
  ext k'
  rw [mem_keySet, Finset.mem_insert, mem_keySet, find_put]
  by_cases h : k' = k <;> simp [h]

lemma card_keySet (m : GoMap K V) : m.keySet.card = m.len := by
  rw [keySet, toFinset_card_of_nodup m.keys_nodup]
  simp [len, AList.keys, List.keys]

lemma find_eq_none_of_len (h : m.len = 0) (k : K) : m.find k = none := by
  rw [← card_keySet, Finset.card_eq_zero] at h
  by_contra hne
  obtain ⟨v, hv⟩ := Option.ne_none_iff_exists'.1 hne
  have hmem := mem_keySet.2 ⟨v, hv⟩
  simp [h] at hmem

lemma len_le_of_find {m' : GoMap K V} (h : ∀ k v, m.find k = some v → ∃ v', m'.find k = some v') :
    m.len ≤ m'.len := by
  rw [← card_keySet, ← card_keySet]
  apply Finset.card_le_card
  intro k hk
  obtain ⟨v, hv⟩ := mem_keySet.1 hk
  exact mem_keySet.2 (h k v hv)

lemma len_delete_lt (h : m.find k = some v) : (m.delete k).len < m.len := by
  have hkeys : (m.delete k).keySet = m.keySet.erase k := by
    ext k'
    rw [Finset.mem_erase, mem_keySet, mem_keySet]
    simp only [find_delete]
    by_cases hk : k' = k <;> simp [hk]
  rw [← card_keySet, ← card_keySet, hkeys]
  exact Finset.card_erase_lt_of_mem (mem_keySet.2 ⟨v, h⟩)

lemma find_of_mem_entries {e : Σ _ : K, V} (h : e ∈ m.entries) : m.find e.1 = some e.2 :=
  find_eq_some_iff.2 h

/-! ## Sorted enumeration -/

section

variable [LE K] [DecidableLE K]

def sortedValues (m : GoMap K V) : List V :=
  (m.keys.insertionSort (· ≤ ·)).filterMap fun k => m.find k

def sortedKeys (m : GoMap K V) : List K :=
  m.keys.insertionSort (· ≤ ·)

variable {m : GoMap K V}

lemma mem_sortedKeys {k : K} : k ∈ m.sortedKeys ↔ ∃ v, m.find k = some v := by
  rw [sortedKeys, mem_insertionSort, ← mem_keySet]
  exact mem_toFinset.symm

omit [DecidableEq K] in
lemma nodup_sortedKeys (m : GoMap K V) : m.sortedKeys.Nodup :=
  (perm_insertionSort _ _).nodup_iff.2 m.keys_nodup

lemma sortedKeys_eq_of_subsingleton {k : K} (h : ∀ k', k' ≠ k → m.find k' = none) :
    m.sortedKeys = (m.find k).toList.map fun _ => k := by
  have hall : ∀ k' ∈ m.sortedKeys, k' = k := by
    intro k' hk'
    obtain ⟨v, hv⟩ := mem_sortedKeys.1 hk'
    by_contra hne
    simp [h k' hne] at hv
  have hreplicate := eq_replicate_of_mem hall
  have hlen : m.sortedKeys.length ≤ 1 := by
    have hnd := m.nodup_sortedKeys
    rw [hreplicate] at hnd
    exact nodup_replicate.1 hnd
  cases hfind : m.find k with
  | none =>
    have hnot : k ∉ m.sortedKeys := by
      intro hmem
      obtain ⟨v, hv⟩ := mem_sortedKeys.1 hmem
      simp [hfind] at hv
    cases hkeys : m.sortedKeys with
    | nil => rfl
    | cons k' keys =>
      have hk' := hall k' (by simp [hkeys])
      exact absurd (by simp [hkeys, hk']) hnot
  | some v =>
    have hmem : k ∈ m.sortedKeys := mem_sortedKeys.2 ⟨v, hfind⟩
    have hpos : 0 < m.sortedKeys.length := length_pos_of_mem hmem
    have hone : m.sortedKeys.length = 1 := le_antisymm hlen hpos
    rw [hreplicate, hone]
    rfl

lemma mem_sortedValues {v : V} : v ∈ m.sortedValues ↔ ∃ k, m.find k = some v := by
  unfold sortedValues
  rw [mem_filterMap]
  constructor
  · rintro ⟨k, -, hk⟩
    exact ⟨k, hk⟩
  · rintro ⟨k, hk⟩
    refine ⟨k, ?_, hk⟩
    rw [mem_insertionSort]
    exact AList.mem_keys.1 (AList.lookup_isSome.1 (by simpa [find] using Option.isSome_of_mem hk))

lemma map_sortedValues {W : Type} {f : V → W} {g : K → W}
    (h : ∀ k v, m.find k = some v → f v = g k) :
    m.sortedValues.map f = (m.keys.insertionSort (· ≤ ·)).map g := by
  have haux : ∀ l : List K, (∀ k ∈ l, ∃ v, m.find k = some v) →
      (l.filterMap fun k => m.find k).map f = l.map g := by
    intro l
    induction l with
    | nil =>
      intro _
      rfl
    | cons k l ih =>
      intro hl
      obtain ⟨v, hv⟩ := hl k (by simp)
      have htail := ih fun k' hk' => hl k' (by simp [hk'])
      simp [hv, h k v hv, htail]
  apply haux
  intro k hk
  rw [mem_insertionSort] at hk
  exact mem_keySet.1 (mem_toFinset.2 hk)

lemma length_sortedValues (m : GoMap K V) : m.sortedValues.length = m.len := by
  have h := congrArg List.length
    (map_sortedValues (m := m) (f := fun _ => ()) (g := fun _ => ()) fun _ _ _ => rfl)
  simpa [len, AList.keys, List.keys] using h

end

end GoMap

end ChainLab
