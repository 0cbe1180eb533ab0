import ChainLab.Data.Program

/-!
# The footprint of an execution

`Within` is the weakest precondition for a program to keep to keys that it may read and keys that it
may write, over one store, and to end in a postcondition on its result and its writes.  It is
computed along the one path that the program takes over the store, so it is exact: `within_iff`
tells what it says about the trace.  The rules for the statements of a program are equivalences as
well.
-/

namespace ChainLab

variable {K V α β : Type} [DecidableEq K]

def Trace.Within (R W : K → Prop) (t : Trace K V) : Prop :=
  (∀ r ∈ t.reads, R r.key) ∧ ∀ k v, t.writes.find k = some v → W k

namespace Trace.Within

variable {R W : K → Prop} {t : Trace K V}

lemma empty : Trace.Within R W ({} : Trace K V) :=
  ⟨fun _ h => (nomatch h), fun _ _ h => (nomatch h)⟩

lemma read (h : t.Within R W) {r : ReadRecord K V} (hr : R r.key) :
    Trace.Within R W { t with reads := t.reads ++ [r] } := by
  refine ⟨fun r' hr' => ?_, h.2⟩
  rcases List.mem_append.1 hr' with hr' | hr'
  · exact h.1 r' hr'
  · exact List.mem_singleton.1 hr' ▸ hr

lemma write (h : t.Within R W) {k : K} {v : V} (hk : W k) :
    Trace.Within R W { t with writes := t.writes.put k v } := by
  refine ⟨h.1, fun k' v' hfind => ?_⟩
  by_cases hkk : k' = k
  · exact hkk ▸ hk
  · exact h.2 k' v' ((GoMap.find_put_ne _ _ hkk).symm.trans hfind)

end Trace.Within

namespace Prog

def look (store : K → V) (w : GoMap K V) (k : K) : V := (w.find k).getD (store k)

def Within (store : K → V) (R W : K → Prop) : Prog K V α → GoMap K V → (α → GoMap K V → Prop) → Prop
  | .done a, w, Q => Q a w
  | .get k next, w, Q => R k ∧ (next (look store w k)).Within store R W w Q
  | .set k v next, w, Q => W k ∧ next.Within store R W (w.put k v) Q

section Rules

variable {store : K → V} {R W : K → Prop} {w : GoMap K V} {Q Q' : α → GoMap K V → Prop}

@[simp] lemma look_empty (k : K) : look store ∅ k = store k := rfl

@[simp] lemma look_put_self (k : K) (v : V) : look store (w.put k v) k = v := by
  simp [look]

variable {k : K} {p : Prog K V α} {γ : Type}

lemma look_put_ne {k' : K} (v : V) (h : k' ≠ k) : look store (w.put k v) k' = look store w k' := by
  simp [look, GoMap.find_put_ne _ _ h]

@[simp] lemma within_pure (a : α) : (pure a : Prog K V α).Within store R W w Q ↔ Q a w := Iff.rfl

@[simp] lemma within_read {Q : V → GoMap K V → Prop} :
    (read k : Prog K V V).Within store R W w Q ↔ R k ∧ Q (look store w k) w := Iff.rfl

@[simp] lemma within_write {v : V} {Q : Unit → GoMap K V → Prop} :
    (write k v : Prog K V Unit).Within store R W w Q ↔ W k ∧ Q () (w.put k v) := Iff.rfl

@[simp] lemma within_bind {f : α → Prog K V β} {Q : β → GoMap K V → Prop} :
    (p >>= f).Within store R W w Q ↔
      p.Within store R W w fun a w' => (f a).Within store R W w' Q := by
  change (p.bind f).Within store R W w Q ↔ _
  induction p generalizing w with
  | done a => rfl
  | get k next ih => exact and_congr_right fun _ => ih _
  | set k v next ih => exact and_congr_right fun _ => ih

@[simp] lemma within_ite {c : Prop} [Decidable c] {q : Prog K V α} :
    (if c then p else q).Within store R W w Q ↔
      (c → p.Within store R W w Q) ∧ (¬c → q.Within store R W w Q) := by
  by_cases h : c <;> simp [h]

lemma Within.mono (h : p.Within store R W w Q) (hQ : ∀ a w', Q a w' → Q' a w') :
    p.Within store R W w Q' := by
  induction p generalizing w with
  | done a => exact hQ a w h
  | get k next ih => exact ⟨h.1, ih _ h.2⟩
  | set k v next ih => exact ⟨h.1, ih h.2⟩

lemma within_forM_skip {l : List γ} {f : γ → Prog K V Unit} {Q : Unit → GoMap K V → Prop}
    (h : ∀ c ∈ l, ∀ w Q, (f c).Within store R W w Q ↔ Q () w) :
    (l.forM f).Within store R W w Q ↔ Q () w := by
  induction l with
  | nil => rfl
  | cons c l ih =>
    have hrest := ih fun d hd => h d (List.mem_cons_of_mem c hd)
    exact (within_bind.trans (h c List.mem_cons_self w _)).trans hrest

lemma within_forM {l : List γ} {f : γ → Prog K V Unit}
    (h : ∀ c ∈ l, ∀ w, (f c).Within store R W w fun _ _ => True) :
    (l.forM f).Within store R W w fun _ _ => True := by
  induction l generalizing w with
  | nil => trivial
  | cons c l ih =>
    refine within_bind.2 ((h c List.mem_cons_self w).mono fun _ _ _ => ?_)
    exact ih fun d hd => h d (List.mem_cons_of_mem c hd)

end Rules

/-! ## What it says about the trace -/

variable {p : Prog K V α} {store : K → V} {t : Trace K V}

lemma mem_exec_writes {k : K} {v : V} (h : t.writes.find k = some v) :
    ∃ v', (p.exec store t).2.writes.find k = some v' := by
  induction p generalizing t v with
  | done a => exact ⟨v, h⟩
  | get k' next ih =>
    cases hk : t.writes.find k' with
    | some v' =>
      rw [exec_get_own hk]
      exact ih _ h
    | none =>
      rw [exec_get_base hk]
      exact ih _ h
  | set k' v' next ih =>
    by_cases hkk : k = k'
    · subst hkk
      exact ih (t := { t with writes := t.writes.put k v' }) (GoMap.find_put_self _ _ _)
    · exact ih (t := { t with writes := t.writes.put k' v' }) ((GoMap.find_put_ne _ _ hkk).trans h)

lemma within_iff {R W : K → Prop} {Q : α → GoMap K V → Prop} (ht : t.Within R W) :
    p.Within store R W t.writes Q ↔
      (p.exec store t).2.Within R W ∧ Q (p.exec store t).1 (p.exec store t).2.writes := by
  induction p generalizing t with
  | done a => exact (and_iff_right ht).symm
  | get k next ih =>
    -- the key is in the trace from here on, so it has to be one that may be read
    have hread : ∀ v own, (next v).Within store R W t.writes Q ∧ R k ↔
        ((next v).exec store { t with reads := t.reads ++ [⟨k, v, own⟩] }).2.Within R W ∧
          Q ((next v).exec store { t with reads := t.reads ++ [⟨k, v, own⟩] }).1
            ((next v).exec store { t with reads := t.reads ++ [⟨k, v, own⟩] }).2.writes := by
      intro v own
      by_cases hk : R k
      · rw [and_iff_left hk]
        exact ih v (t := { t with reads := t.reads ++ [⟨k, v, own⟩] }) (ht.read hk)
      · refine iff_of_false (fun h => hk h.2) fun h => hk ?_
        exact h.1.1 ⟨k, v, own⟩ (mem_exec_reads (by simp))
    cases hk : t.writes.find k with
    | some v =>
      rw [exec_get_own hk, ← hread v true, and_comm]
      simp only [Within, look, hk, Option.getD_some]
    | none =>
      rw [exec_get_base hk, ← hread (store k) false, and_comm]
      simp only [Within, look, hk, Option.getD_none]
  | set k v next ih =>
    by_cases hk : W k
    · exact (and_iff_right hk).trans (ih (t := { t with writes := t.writes.put k v }) (ht.write hk))
    refine iff_of_false (fun h => hk h.1) fun h => hk ?_
    obtain ⟨v', hv'⟩ : ∃ v', (next.exec store
        { t with writes := t.writes.put k v }).2.writes.find k = some v' :=
      mem_exec_writes (GoMap.find_put_self t.writes k v)
    exact h.1.2 k v' hv'

end Prog
end ChainLab
