import ChainLab.Data.Footprint
import ChainLab.Data.Serial

/-!
# Reordering serial executions

Every program has a footprint: the places it may read and the places it may write.  Two programs are
independent when neither writes to the footprint of the other.  Neighbours that are independent may
change places (`swap`), so two orders that agree on the direction of every dependent pair lead to
the same outcomes and to the same state (`serialFrom_reorder`).
-/

namespace ChainLab.Serial

open List

variable {P K V α ι : Type} [DecidableEq P] [DecidableEq K] [LE K] [DecidableLE K] [Inhabited V]

/-! ## Stores that look alike -/

def Same (s s' : GoMap P V) : Prop := ∀ p, s.find p = s'.find p

section Same

variable {addr : K → P} {prog : ι → Prog K V α} {s s' : GoMap P V}

omit [LE K] [DecidableLE K] in
lemma Same.outcome (h : Same s s') (i : ι) : outcome addr prog s i = outcome addr prog s' i :=
  outcome_eq fun r _ _ => h (addr r.key)

lemma find_applyWrites_congr {p : P} (h : s.find p = s'.find p) (writes : GoMap K V) :
    (applyWrites addr writes s).find p = (applyWrites addr writes s').find p := by
  suffices hfold : ∀ (l : List K) (t t' : GoMap P V), t.find p = t'.find p →
      (l.foldl (fun s k => s.put (addr k) (writes.get k)) t).find p =
        (l.foldl (fun s k => s.put (addr k) (writes.get k)) t').find p from hfold _ s s' h
  intro l
  induction l with
  | nil => exact fun _ _ ht => ht
  | cons k l ih =>
    intro t t' ht
    refine ih _ _ ?_
    simp only [GoMap.find_put, ht]

lemma Same.applyWrites (h : Same s s') (writes : GoMap K V) :
    Same (applyWrites addr writes s) (applyWrites addr writes s') :=
  fun p => find_applyWrites_congr (h p) writes

lemma Same.serialFrom (h : Same s s') (order : List ι) :
    (serialFrom addr prog s order).1 = (serialFrom addr prog s' order).1 ∧
      Same (serialFrom addr prog s order).2 (serialFrom addr prog s' order).2 := by
  induction order generalizing s s' with
  | nil => exact ⟨rfl, h⟩
  | cons i order ih =>
    have hout : Serial.outcome addr prog s i = Serial.outcome addr prog s' i := h.outcome i
    have hnext : Same (Serial.applyWrites addr (Serial.outcome addr prog s' i).2.writes s)
        (Serial.applyWrites addr (Serial.outcome addr prog s' i).2.writes s') := h.applyWrites _
    have hrest := ih hnext
    simp only [Serial.serialFrom, hout]
    exact ⟨congrArg _ hrest.1, hrest.2⟩

end Same

/-! ## Footprints -/

structure Footprints (ι P : Type) where
  reads : ι → P → Prop
  writes : ι → P → Prop

namespace Footprints

variable (fp : Footprints ι P)

structure Independent (i j : ι) : Prop where
  left : ∀ p, fp.writes i p → ¬fp.reads j p
  right : ∀ p, fp.writes j p → ¬fp.reads i p
  both : ∀ p, fp.writes i p → ¬fp.writes j p

variable (addr : K → P) (prog : ι → Prog K V α)

def Stays (i : ι) (out : α × Trace K V) : Prop :=
  out.2.Within (fun k => fp.reads i (addr k)) (fun k => fp.writes i (addr k))

def StaysAll (s : GoMap P V) : List ι → Prop
  | [] => True
  | i :: order =>
    fp.Stays addr i (outcome addr prog s i) ∧
      StaysAll (applyWrites addr (outcome addr prog s i).2.writes s) order

end Footprints

section Reorder

variable {addr : K → P} {prog : ι → Prog K V α} {fp : Footprints ι P} {s s' : GoMap P V}
  {order order' : List ι} {i j : ι}

omit [DecidableEq P] [DecidableEq K] [LE K] [DecidableLE K] [Inhabited V] in
lemma Footprints.Independent.symm (h : fp.Independent i j) : fp.Independent j i :=
  ⟨h.right, h.left, fun p hj hi => h.both p hi hj⟩

lemma Same.staysAll (h : Same s s') (hstays : fp.StaysAll addr prog s order) :
    fp.StaysAll addr prog s' order := by
  induction order generalizing s s' with
  | nil => trivial
  | cons i order ih =>
    obtain ⟨hi, hrest⟩ := hstays
    rw [h.outcome i] at hi hrest
    exact ⟨hi, ih (h.applyWrites _) hrest⟩

lemma unread_applyWrites (h : fp.Independent i j) {out out' : α × Trace K V}
    (hi : fp.Stays addr i out) (hj : fp.Stays addr j out') :
    ∀ r ∈ out'.2.reads, (applyWrites addr out.2.writes s).find (addr r.key) = s.find (addr r.key) :=
  fun r hr => find_applyWrites_ne fun k v hk he => h.left _ (hi.2 k v hk) (he ▸ hj.1 r hr)

lemma same_applyWrites_comm {w w' : GoMap K V}
    (h : ∀ k v k' v', w.find k = some v → w'.find k' = some v' → addr k ≠ addr k') :
    Same (applyWrites addr w' (applyWrites addr w s))
    (applyWrites addr w (applyWrites addr w' s)) := by
  intro p
  by_cases hw : ∃ k v, w.find k = some v ∧ addr k = p
  · obtain ⟨k, v, hk, rfl⟩ := hw
    have hleft : ∀ k' v', w'.find k' = some v' → addr k' ≠ addr k :=
      fun k' v' hk' he => h k v k' v' hk hk' he.symm
    rw [find_applyWrites_ne hleft]
    exact find_applyWrites_congr (find_applyWrites_ne hleft).symm w
  · have hright : ∀ k v, w.find k = some v → addr k ≠ p := fun k v hk he => hw ⟨k, v, hk, he⟩
    rw [find_applyWrites_ne hright]
    exact find_applyWrites_congr (find_applyWrites_ne hright) w'

def outcomes (addr : K → P) (prog : ι → Prog K V α) (s : GoMap P V) (order : List ι) :
    List (ι × α × Trace K V) :=
  order.zip (serialFrom addr prog s order).1

lemma outcomes_cons (s : GoMap P V) (i : ι) (order : List ι) :
    outcomes addr prog s (i :: order) = (i, outcome addr prog s i) ::
      outcomes addr prog (applyWrites addr (outcome addr prog s i).2.writes s) order := rfl

lemma Same.outcomes (h : Same s s') (order : List ι) :
    outcomes addr prog s order = Serial.outcomes addr prog s' order := by
  simp only [Serial.outcomes, (h.serialFrom order).1]

/-- Two orders lead to the same outcomes of the programs and to the same state. -/
structure Equivalent (addr : K → P) (prog : ι → Prog K V α) (s : GoMap P V)
    (order order' : List ι) :
    Prop where
  outcomes : (outcomes addr prog s order).Perm (outcomes addr prog s order')
  final : Same (serialFrom addr prog s order).2 (serialFrom addr prog s order').2

namespace Equivalent

lemma refl (order : List ι) : Equivalent addr prog s order order := ⟨.refl _, fun _ => rfl⟩

lemma trans {order'' : List ι} (h : Equivalent addr prog s order order')
    (h' : Equivalent addr prog s order' order'') : Equivalent addr prog s order order'' :=
  ⟨h.outcomes.trans h'.outcomes, fun p => (h.final p).trans (h'.final p)⟩

lemma cons (h : Equivalent addr prog (applyWrites addr (outcome addr prog s i).2.writes s) order
    order') :
    Equivalent addr prog s (i :: order) (i :: order') :=
  ⟨h.outcomes.cons _, h.final⟩

end Equivalent

lemma swap (h : fp.Independent i j) (hstays : fp.StaysAll addr prog s (i :: j :: order)) :
    fp.StaysAll addr prog s (j :: i :: order) ∧
      Equivalent addr prog s (i :: j :: order) (j :: i :: order) := by
  obtain ⟨hi, hj, hrest⟩ := hstays
  -- each of the two does what it did
  have hjs : outcome addr prog s j = _ :=
    outcome_eq fun r hr _ => (unread_applyWrites h hi hj r hr).symm
  rw [← hjs] at hj hrest
  have his : outcome addr prog (applyWrites addr (outcome addr prog s j).2.writes s) i =
      outcome addr prog s i := outcome_eq fun r hr _ => unread_applyWrites h.symm hj hi r hr
  have hsame : Same (applyWrites addr (outcome addr prog s j).2.writes
        (applyWrites addr (outcome addr prog s i).2.writes s))
      (applyWrites addr (outcome addr prog s i).2.writes
        (applyWrites addr (outcome addr prog s j).2.writes s)) :=
    same_applyWrites_comm fun k v k' v' hk hk' he =>
      h.both _ (hi.2 k v hk) (he ▸ hj.2 k' v' hk')
  refine ⟨⟨hj, ?_, ?_⟩, ?_, ?_⟩
  · rw [his]
    exact hi
  · rw [his]
    exact hsame.staysAll hrest
  · simp only [outcomes_cons, ← hjs, his, hsame.outcomes order]
    exact .swap _ _ _
  · simp only [serialFrom, ← hjs, his]
    exact (hsame.serialFrom order).2

lemma move_front {before after : List ι} (h : ∀ i ∈ before, fp.Independent i j)
    (hstays : fp.StaysAll addr prog s (before ++ j :: after)) :
    fp.StaysAll addr prog s (j :: (before ++ after)) ∧
      Equivalent addr prog s (before ++ j :: after) (j :: (before ++ after)) := by
  induction before generalizing s with
  | nil => exact ⟨hstays, .refl _⟩
  | cons i before ih =>
    obtain ⟨hrest, hequiv⟩ := ih (fun i' hi' => h i' (mem_cons_of_mem i hi')) hstays.2
    have hswap := swap (h i mem_cons_self) ⟨hstays.1, hrest⟩
    exact ⟨hswap.1, hequiv.cons.trans hswap.2⟩

/-- Two orders that respect the same arcs are equivalent, provided that programs without an arc
between them are independent. -/
lemma serialFrom_reorder {arc : ι → ι → Prop} (hperm : order'.Perm order) (hnd : order.Nodup)
    (hind : ∀ i ∈ order, ∀ j ∈ order, ¬arc i j → ¬arc j i → i ≠ j → fp.Independent i j)
    (horder : order.Pairwise fun i j => ¬arc j i) (horder' : order'.Pairwise fun i j => ¬arc j i)
    (hstays : fp.StaysAll addr prog s order) :
    fp.StaysAll addr prog s order' ∧ Equivalent addr prog s order order' := by
  induction order' generalizing s order with
  | nil =>
    cases hperm.nil_eq
    exact ⟨trivial, .refl _⟩
  | cons j order' ih =>
    obtain ⟨before, after, rfl⟩ := append_of_mem (hperm.subset mem_cons_self)
    have hperm' : order'.Perm (before ++ after) := (hperm.trans perm_middle).cons_inv
    rw [pairwise_cons] at horder'
    have hmiddle := nodup_middle.1 hnd
    rw [nodup_cons] at hmiddle
    have hsub : List.Sublist (before ++ after) (before ++ j :: after) :=
      List.Sublist.append_left (sublist_cons_self j after) before
    -- whatever stood before `j` has no arc to it or from it
    have hbef : ∀ i ∈ before, fp.Independent i j := by
      intro i hi
      have hmem : i ∈ before ++ after := mem_append_left _ hi
      refine hind i (hsub.subset hmem) j (by simp) ?_ ?_ ?_
      · exact horder'.1 i (hperm'.mem_iff.2 hmem)
      · exact (pairwise_append.1 horder).2.2 i hi j mem_cons_self
      · rintro rfl
        exact hmiddle.1 hmem
    obtain ⟨hfront, hequiv⟩ := move_front hbef hstays
    obtain ⟨hrest, hequiv'⟩ := ih hperm' hmiddle.2
      (fun i hi j hj => hind i (hsub.subset hi) j (hsub.subset hj))
      (horder.sublist hsub) horder'.2 hfront.2
    exact ⟨⟨hfront.1, hrest⟩, hequiv.trans hequiv'.cons⟩

end Reorder

/-! ## Waves -/

section

variable (addr : K → P) (prog : ι → Prog K V α) (fp : Footprints ι P)

/-- The outcomes of waves, each with its program, and the final store: the programs of a wave all
run over the store in which the wave starts, and their writes are applied in order. -/
def wavesFrom (s : GoMap P V) : List (List ι) → List (ι × α × Trace K V) × GoMap P V
  | [] => ([], s)
  | wave :: waves =>
    let rest := wavesFrom (applyAll addr (fun i => (outcome addr prog s i).2.writes) wave s) waves
    (wave.map (fun i => (i, outcome addr prog s i)) ++ rest.1, rest.2)

/-- In an execution of waves, every program keeps to its footprint. -/
def Footprints.WavesStay (s : GoMap P V) : List (List ι) → Prop
  | [] => True
  | wave :: waves =>
    (∀ i ∈ wave, fp.Stays addr i (outcome addr prog s i)) ∧
      WavesStay (applyAll addr (fun i => (outcome addr prog s i).2.writes) wave s) waves

variable {addr prog fp} {s : GoMap P V}

lemma serialFrom_append (order order' : List ι) : serialFrom addr prog s (order ++ order') =
      ((serialFrom addr prog s order).1 ++
        (serialFrom addr prog (serialFrom addr prog s order).2 order').1,
        (serialFrom addr prog (serialFrom addr prog s order).2 order').2) := by
  induction order generalizing s with
  | nil => rfl
  | cons i order ih => simp only [cons_append, serialFrom, ih]

lemma outcomes_append (order order' : List ι) :
    outcomes addr prog s (order ++ order') = outcomes addr prog s order ++
      outcomes addr prog (serialFrom addr prog s order).2 order' := by
  induction order generalizing s with
  | nil => rfl
  | cons i order ih => simp only [cons_append, outcomes_cons, serialFrom, ih]

lemma staysAll_append {order order' : List ι} :
    fp.StaysAll addr prog s (order ++ order') ↔ fp.StaysAll addr prog s order ∧
      fp.StaysAll addr prog (serialFrom addr prog s order).2 order' := by
  induction order generalizing s with
  | nil => exact (iff_of_eq (true_and _)).symm
  | cons i order ih =>
    simp only [cons_append, Footprints.StaysAll, serialFrom, ih, and_assoc]

lemma staysAll_of_wave {base : GoMap P V} {wave : List ι} (hwave : wave.Pairwise fp.Independent)
    (hstays : ∀ i ∈ wave, fp.Stays addr i (outcome addr prog base i))
    (hagree : ∀ i ∈ wave, outcome addr prog s i = outcome addr prog base i) :
    fp.StaysAll addr prog s wave := by
  induction wave generalizing s with
  | nil => trivial
  | cons i wave ih =>
    rw [pairwise_cons] at hwave
    have hi := hagree i mem_cons_self
    have hstay := hstays i mem_cons_self
    refine ⟨hi ▸ hstay, ih hwave.2 (fun j hj => hstays j (mem_cons_of_mem i hj)) ?_⟩
    intro j hj
    have hj' := mem_cons_of_mem i hj
    have hstay' : fp.Stays addr j (outcome addr prog s j) := hagree j hj' ▸ hstays j hj'
    rw [hi, ← hagree j hj']
    exact outcome_eq fun r hr _ => unread_applyWrites (hwave.1 j hj) hstay hstay' r hr

lemma wavesFrom_eq {waves : List (List ι)} (hwaves : ∀ wave ∈ waves, wave.Pairwise fp.Independent)
    (hstays : fp.WavesStay addr prog s waves) :
    wavesFrom addr prog s waves = (outcomes addr prog s waves.flatten,
        (serialFrom addr prog s waves.flatten).2) ∧
      fp.StaysAll addr prog s waves.flatten := by
  induction waves generalizing s with
  | nil => exact ⟨rfl, trivial⟩
  | cons wave waves ih =>
    have hwave := hwaves wave mem_cons_self
    have hserial : serialFrom addr prog s wave = (wave.map (outcome addr prog s),
        applyAll addr (fun i => (outcome addr prog s i).2.writes) wave s) := by
      refine serialFrom_eq (hwave.imp_of_mem ?_)
      intro i j hi hj hij r hr _ k v hk he
      exact hij.left _ ((hstays.1 i hi).2 k v hk) (he ▸ (hstays.1 j hj).1 r hr)
    have houtcomes : outcomes addr prog s wave = wave.map fun i => (i, outcome addr prog s i) := by
      rw [outcomes, hserial]
      exact map_prod_left_eq_zip.symm
    obtain ⟨hrest, hrestStays⟩ := ih (fun w hw => hwaves w (mem_cons_of_mem wave hw)) hstays.2
    rw [flatten_cons, serialFrom_append, staysAll_append, outcomes_append, houtcomes, hserial]
    refine ⟨?_, staysAll_of_wave hwave hstays.1 fun _ _ => rfl, hrestStays⟩
    simp only [wavesFrom, hrest]

end

end ChainLab.Serial
