import Mathlib.Tactic.Basic

/-!
# Checked computations

Code that returns early with an error is a chain of `require`s in `Except`.  The lemmas turn a
successful run of such a chain into the conjunction of what it checked.
-/

namespace ChainLab.Result

open List

variable {ε α β : Type}

/-- Go on when `p` holds, stop with `err` otherwise. -/
def require (p : Prop) [Decidable p] (err : ε) : Except ε Unit :=
  if p then .ok () else .error err

variable {err : ε} {p : Prop} {b : β} {f : α → Except ε β} {a : α} {l : List α}

@[simp] lemma require_eq_ok [Decidable p] {u : Unit} : require p err = .ok u ↔ p := by
  unfold require
  split <;> simp_all

lemma ok_bind (a : α) (f : α → Except ε β) : (Except.ok a >>= f) = f a := rfl

lemma require_bind [Decidable p] {f : Unit → Except ε β} (h : p) :
    (require p err >>= f) = f () := by
  simp only [require, if_pos h]
  rfl

lemma bind_eq_ok {x : Except ε α} : (x >>= f) = .ok b ↔ ∃ a, x = .ok a ∧ f a = .ok b := by
  rcases x with e | a
  · simp [bind, Except.bind]
  · simp [bind, Except.bind]

@[simp] lemma require_bind_eq_ok [Decidable p] {f : Unit → Except ε β} :
    (require p err >>= f) = .ok b ↔ p ∧ f () = .ok b := by
  unfold require
  split <;> simp_all [bind, Except.bind]

lemma map_eq_ok {x : Except ε α} {f : α → β} : x.map f = .ok b ↔ ∃ a, x = .ok a ∧ f a = b := by
  rcases x with e | a
  · simp [Except.map]
  · simp [Except.map]

lemma foldlM_induction {P : α → Prop} {f : α → β → Except ε α} {l : List β} {b : α}
    (h : l.foldlM f a = .ok b) (ha : P a) (hstep : ∀ a x b, x ∈ l → P a → f a x = .ok b → P b) :
    P b := by
  induction l generalizing a with
  | nil =>
    cases h
    exact ha
  | cons x l ih =>
    rw [foldlM_cons, bind_eq_ok] at h
    obtain ⟨mid, hmid, hrest⟩ := h
    exact ih hrest (hstep a x mid (by simp) ha hmid) fun a x b hx =>
      hstep a x b (mem_cons_of_mem _ hx)

lemma exists_of_foldlM_error {f : α → β → Except ε α} {l : List β} (h : l.foldlM f a = .error err) :
    ∃ a x, x ∈ l ∧ f a x = .error err := by
  induction l generalizing a with
  | nil => cases h
  | cons x l ih =>
    rw [foldlM_cons] at h
    cases hx : f a x with
    | error err' =>
      rw [hx] at h
      cases h
      exact ⟨a, x, by simp, hx⟩
    | ok mid =>
      rw [hx] at h
      obtain ⟨a', x', hx', herr⟩ := ih h
      exact ⟨a', x', mem_cons_of_mem _ hx', herr⟩

lemma exists_of_mapM_error (h : l.mapM f = .error err) : ∃ a ∈ l, f a = .error err := by
  induction l with
  | nil => cases h
  | cons a l ih =>
    rw [mapM_cons] at h
    cases ha : f a with
    | error err' =>
      rw [ha] at h
      cases h
      exact ⟨a, by simp, ha⟩
    | ok first =>
      rw [ha, ok_bind] at h
      cases hrest : l.mapM f with
      | error err' =>
        rw [hrest] at h
        cases h
        obtain ⟨a', ha', herr⟩ := ih hrest
        exact ⟨a', mem_cons_of_mem _ ha', herr⟩
      | ok rest =>
        rw [hrest] at h
        cases h

lemma exists_of_mem_mapM {out : List β} (h : l.mapM f = .ok out) (hb : b ∈ out) :
    ∃ a ∈ l, f a = .ok b := by
  induction l generalizing out with
  | nil =>
    cases h
    cases hb
  | cons a l ih =>
    rw [mapM_cons, bind_eq_ok] at h
    obtain ⟨first, hfirst, h⟩ := h
    obtain ⟨rest, hrest, hout⟩ := bind_eq_ok.1 h
    cases hout
    rcases mem_cons.1 hb with rfl | hb
    · exact ⟨a, by simp, hfirst⟩
    · obtain ⟨a', ha', hb'⟩ := ih hrest hb
      exact ⟨a', mem_cons_of_mem _ ha', hb'⟩

lemma mapM_eq_ok {g : α → β} (h : ∀ a ∈ l, f a = .ok (g a)) : l.mapM f = .ok (l.map g) := by
  induction l with
  | nil => rfl
  | cons a l ih =>
    have hrest := ih fun a' ha' => h a' (mem_cons_of_mem a ha')
    rw [mapM_cons, h a mem_cons_self, ok_bind, hrest]
    rfl

lemma forM_eq_ok {f : α → Except ε Unit} : l.forM f = .ok () ↔ ∀ a ∈ l, f a = .ok () := by
  induction l with
  | nil => exact iff_of_true rfl (by simp)
  | cons a l ih =>
    change (f a >>= fun _ => l.forM f) = .ok () ↔ _
    rw [bind_eq_ok, forall_mem_cons, ← ih]
    exact ⟨fun ⟨_, ha, hrest⟩ => ⟨ha, hrest⟩, fun ⟨ha, hrest⟩ => ⟨(), ha, hrest⟩⟩

end ChainLab.Result
