import ChainLab.Data.Program

/-!
# Serial execution

Programs run one after the other over a store; each sees what the earlier ones have written.
Running them all over the first store instead gives the same outcomes, provided that no program
reads what an earlier one writes (`serialFrom_eq`), and the final store does not depend on the order
of programs that write to different places (`find_applyAll_perm`).  Programs name their keys, and
`addr` tells where in the store a key lives.
-/

namespace ChainLab.Serial

open List GoMap

variable {P K V α ι : Type} [DecidableEq P] [DecidableEq K] [LE K] [DecidableLE K] [Inhabited V]

def view (addr : K → P) (store : GoMap P V) (k : K) : V := store.get (addr k)

def applyWrites (addr : K → P) (writes : GoMap K V) (store : GoMap P V) : GoMap P V :=
  writes.sortedKeys.foldl (fun s k => s.put (addr k) (writes.get k)) store

/-! ## One write set -/

section

variable {addr : K → P} {writes : GoMap K V} {store : GoMap P V}

omit [LE K] [DecidableLE K] in
lemma find_foldl_put_ne {l : List K} {p : P} (h : ∀ k ∈ l, addr k ≠ p) :
    (l.foldl (fun s k => s.put (addr k) (writes.get k)) store).find p = store.find p := by
  refine foldlRecOn (motive := fun s : GoMap P V => s.find p = store.find p) l _ rfl ?_
  exact fun s hs k hk => (find_put_ne _ _ (h k hk).symm).trans hs

lemma find_applyWrites_ne {p : P} (h : ∀ k v, writes.find k = some v → addr k ≠ p) :
    (applyWrites addr writes store).find p = store.find p := by
  refine find_foldl_put_ne fun k hk => ?_
  obtain ⟨v, hv⟩ := mem_sortedKeys.1 hk
  exact h k v hv

lemma find_applyWrites {k : K} {v : V} (hk : writes.find k = some v)
    (h : ∀ k' v', writes.find k' = some v' → addr k' = addr k → k' = k) :
    (applyWrites addr writes store).find (addr k) = some v := by
  rw [← get_of_find hk]
  refine find_foldl_put_mem (mem_sortedKeys.2 ⟨v, hk⟩) ?_ store
  intro k' hk' he
  obtain ⟨v', hv'⟩ := mem_sortedKeys.1 hk'
  exact h k' v' hv' he

/-- The last write is not overwritten. -/
lemma exists_find_applyWrites (addr : K → P) (store : GoMap P V) (h : writes.sortedKeys ≠ []) :
    ∃ k v, writes.find k = some v ∧ (applyWrites addr writes store).find (addr k) = some v := by
  rcases eq_nil_or_concat writes.sortedKeys with hnil | ⟨l, k, hkeys⟩
  · exact absurd hnil h
  rcases mem_sortedKeys.1 (show k ∈ writes.sortedKeys by simp [hkeys]) with ⟨v, hv⟩
  refine ⟨k, v, hv, ?_⟩
  rw [applyWrites, hkeys, concat_eq_append, foldl_append, foldl_cons, foldl_nil, find_put_self,
    get_of_find hv]

end

/-! ## Many write sets -/

section

variable (addr : K → P) (writes : ι → GoMap K V)

def applyAll (order : List ι) (store : GoMap P V) : GoMap P V :=
  order.foldl (fun s i => applyWrites addr (writes i) s) store

def Apart (i j : ι) : Prop :=
  ∀ k v k' v', (writes i).find k = some v → (writes j).find k' = some v' → addr k ≠ addr k'

def Spelled (i : ι) : Prop :=
  ∀ k v k' v', (writes i).find k = some v → (writes i).find k' = some v' → addr k' = addr k → k' = k

variable {addr writes} {order order' : List ι} {store : GoMap P V}

omit [DecidableEq P] [LE K] [DecidableLE K] [Inhabited V] in
lemma Apart.symm {i j : ι} (h : Apart addr writes i j) : Apart addr writes j i :=
  fun k v k' v' hk hk' he => h k' v' k v hk' hk he.symm

lemma find_applyAll_ne {p : P} (h : ∀ i ∈ order, ∀ k v, (writes i).find k = some v → addr k ≠ p) :
    (applyAll addr writes order store).find p = store.find p := by
  refine foldlRecOn (motive := fun s : GoMap P V => s.find p = store.find p) order _ rfl ?_
  exact fun s hs i hi => (find_applyWrites_ne (h i hi)).trans hs

lemma find_applyAll_mem (hapart : order.Pairwise (Apart addr writes))
    (hspell : ∀ i ∈ order, Spelled addr writes i) {i : ι} (hi : i ∈ order) {k : K} {v : V}
    (hk : (writes i).find k = some v) :
    (applyAll addr writes order store).find (addr k) = some v := by
  induction order generalizing store with
  | nil => simp at hi
  | cons j order ih =>
    rw [applyAll, foldl_cons, ← applyAll]
    rw [pairwise_cons] at hapart
    rcases mem_cons.1 hi with rfl | hi
    · rw [find_applyAll_ne]
      · exact find_applyWrites hk fun k' v' hk' => hspell i (by simp) k v k' v' hk hk'
      · intro j hj k' v' hk' he
        exact hapart.1 j hj k v k' v' hk hk' he.symm
    · exact ih hapart.2 (fun j hj => hspell j (mem_cons_of_mem _ hj)) hi

lemma find_applyAll_perm (hapart : order.Pairwise (Apart addr writes))
    (hspell : ∀ i ∈ order, Spelled addr writes i) (hperm : order'.Perm order) (p : P) :
    (applyAll addr writes order' store).find p = (applyAll addr writes order store).find p := by
  have hapart' : order'.Pairwise (Apart addr writes) := (hperm.pairwise_iff Apart.symm).2 hapart
  by_cases hwrote : ∃ i ∈ order, ∃ k v, (writes i).find k = some v ∧ addr k = p
  · obtain ⟨i, hi, k, v, hk, rfl⟩ := hwrote
    rw [find_applyAll_mem hapart hspell hi hk]
    exact find_applyAll_mem hapart' (fun j hj => hspell j (hperm.mem_iff.1 hj))
      (hperm.mem_iff.2 hi) hk
  · have hnone : ∀ i ∈ order, ∀ k v, (writes i).find k = some v → addr k ≠ p :=
      fun i hi k v hk he => hwrote ⟨i, hi, k, v, hk, he⟩
    rw [find_applyAll_ne hnone]
    exact find_applyAll_ne fun i hi => hnone i (hperm.mem_iff.1 hi)

end

/-! ## Programs -/

section

variable (addr : K → P) (prog : ι → Prog K V α)

def outcome (store : GoMap P V) (i : ι) : α × Trace K V := (prog i).run (view addr store)

/-- The outcomes of programs run one after the other, and the final store. -/
def serialFrom (store : GoMap P V) : List ι → List (α × Trace K V) × GoMap P V
  | [] => ([], store)
  | i :: order =>
    let rest := serialFrom (applyWrites addr (outcome addr prog store i).2.writes store) order
    (outcome addr prog store i :: rest.1, rest.2)

variable {addr prog} {base store : GoMap P V} {order : List ι}

lemma length_serialFrom : (serialFrom addr prog store order).1.length = order.length := by
  induction order generalizing store with
  | nil => rfl
  | cons i order ih => simp [serialFrom, ih]

/-- Over `base`, program `j` reads from the store nothing that program `i` writes. -/
def Overlooks (addr : K → P) (prog : ι → Prog K V α) (base : GoMap P V) (i j : ι) : Prop :=
  ∀ r ∈ (outcome addr prog base j).2.reads, r.own = false →
    ∀ k v, (outcome addr prog base i).2.writes.find k = some v → addr k ≠ addr r.key

omit [LE K] [DecidableLE K] in
lemma outcome_eq {i : ι} (h : ∀ r ∈ (outcome addr prog base i).2.reads, r.own = false →
    store.find (addr r.key) = base.find (addr r.key)) :
    outcome addr prog store i = outcome addr prog base i := by
  refine Prog.exec_congr fun r hr hown => ?_
  simp only [view, GoMap.get, h r hr hown]

lemma serialFrom_eq_of_agree (horder : order.Pairwise (Overlooks addr prog base))
    (hagree : ∀ i ∈ order, ∀ r ∈ (outcome addr prog base i).2.reads, r.own = false →
      store.find (addr r.key) = base.find (addr r.key)) :
    serialFrom addr prog store order = (order.map (outcome addr prog base),
      applyAll addr (fun i => (outcome addr prog base i).2.writes) order store) := by
  induction order generalizing store with
  | nil => rfl
  | cons i order ih =>
    rw [pairwise_cons] at horder
    have hi : outcome addr prog store i = outcome addr prog base i :=
      outcome_eq (hagree i (by simp))
    have hagree' : ∀ j ∈ order, ∀ r ∈ (outcome addr prog base j).2.reads, r.own = false →
        (applyWrites addr (outcome addr prog base i).2.writes store).find (addr r.key) =
          base.find (addr r.key) := by
      intro j hj r hr hown
      rw [find_applyWrites_ne fun k v hk => horder.1 j hj r hr hown k v hk]
      exact hagree j (mem_cons_of_mem i hj) r hr hown
    simp only [serialFrom, hi, ih horder.2 hagree', map_cons]
    rfl

lemma serialFrom_eq (horder : order.Pairwise (Overlooks addr prog base)) :
    serialFrom addr prog base order = (order.map (outcome addr prog base),
      applyAll addr (fun i => (outcome addr prog base i).2.writes) order base) :=
  serialFrom_eq_of_agree horder fun _ _ _ _ _ => rfl

end

/-! ## Dealing out an order -/

section

variable {γ : Type} (front : γ → Bool)

def deal (l : List γ) : List γ :=
  l.foldl (fun order a => if front a then a :: order else order ++ [a]) []

variable {front} {R S : γ → γ → Prop}

lemma foldl_deal_perm (l acc : List γ) :
    (l.foldl (fun order a => if front a then a :: order else order ++ [a]) acc).Perm
      (acc ++ l) := by
  induction l generalizing acc with
  | nil => simp
  | cons a l ih =>
    rw [foldl_cons]
    refine (ih _).trans ?_
    cases front a with
    | true => simpa using perm_middle.symm
    | false => simp

lemma deal_perm (l : List γ) : (deal front l).Perm l := by
  simpa [deal] using foldl_deal_perm l []

lemma pairwise_deal {l : List γ} (hR : l.Pairwise R)
    (hfront : ∀ a b, R a b → front b = true → S b a)
    (hback : ∀ a b, R a b → front b = false → S a b) : (deal front l).Pairwise S := by
  suffices h : ∀ acc : List γ, acc.Pairwise S → (∀ a ∈ acc, ∀ b ∈ l, R a b) →
      (l.foldl (fun order a => if front a then a :: order else order ++ [a]) acc).Pairwise S from
    h [] .nil (by simp)
  induction l with
  | nil => exact fun acc hacc _ => hacc
  | cons b l ih =>
    intro acc hacc hbef
    rw [pairwise_cons] at hR
    rw [foldl_cons]
    refine ih hR.2 _ ?_ ?_
    · cases hb : front b with
      | true =>
        rw [if_pos rfl, pairwise_cons]
        exact ⟨fun a ha => hfront a b (hbef a ha b (by simp)) hb, hacc⟩
      | false =>
        rw [if_neg (by simp), pairwise_append]
        refine ⟨hacc, pairwise_singleton _ _, ?_⟩
        intro a ha c hc
        rw [mem_singleton.1 hc]
        exact hback a b (hbef a ha b (by simp)) hb
    · intro a ha c hc
      have hmem : a ∈ acc ∨ a = b := by
        cases hb : front b <;> simp [hb, or_comm] at ha <;> tauto
      rcases hmem with hmem | rfl
      · exact hbef a hmem c (mem_cons_of_mem b hc)
      · exact hR.1 c hc

end

end ChainLab.Serial
