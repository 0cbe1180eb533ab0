import ChainLab.Data.GoMap

/-!
# Programs over a key-value store

A program asks for the values of keys and assigns values to keys.  It runs over a store in an
overlay: its own writes stay private, a key it has written is answered from them, and everything it
reads is recorded.  What a program does depends on the store only through the keys it reads from
there (`exec_congr`).
-/

namespace ChainLab

inductive Prog (K V α : Type) where
  | done (a : α)
  | get (key : K) (next : V → Prog K V α)
  | set (key : K) (value : V) (next : Prog K V α)

/-- A value that was read; `own` tells that it came from the program's own writes. -/
structure ReadRecord (K V : Type) where
  key : K
  value : V
  own : Bool
deriving DecidableEq, Repr

structure Trace (K V : Type) where
  reads : List (ReadRecord K V) := []
  writes : GoMap K V := ∅
deriving DecidableEq

namespace Prog

variable {K V α β : Type}

/-! ## Sequencing -/

def bind : Prog K V α → (α → Prog K V β) → Prog K V β
  | .done a, f => f a
  | .get k next, f => .get k fun v => (next v).bind f
  | .set k v next, f => .set k v (next.bind f)

instance : Monad (Prog K V) where
  pure := .done
  bind := bind

def read (k : K) : Prog K V V := .get k .done

def write (k : K) (v : V) : Prog K V Unit := .set k v (.done ())

/-! ## The keys of a program -/

/-- Every key that the program may access satisfies `P`. -/
def Uses (P : K → Prop) : Prog K V α → Prop
  | .done _ => True
  | .get k next => P k ∧ ∀ v, (next v).Uses P
  | .set k _ next => P k ∧ next.Uses P

section Uses

variable {P : K → Prop}

@[simp] lemma uses_pure (a : α) : (pure a : Prog K V α).Uses P := trivial

@[simp] lemma uses_read {k : K} : (read k : Prog K V V).Uses P ↔ P k := by
  simp [read, Uses]

@[simp] lemma uses_write {k : K} {v : V} : (write k v : Prog K V Unit).Uses P ↔ P k := by
  simp [write, Uses]

lemma uses_bind {p : Prog K V α} {f : α → Prog K V β} (hp : p.Uses P)
    (hf : ∀ a, (f a).Uses P) : (p >>= f).Uses P := by
  change (p.bind f).Uses P
  induction p with
  | done a => exact hf a
  | get k next ih => exact ⟨hp.1, fun v => ih v (hp.2 v)⟩
  | set k v next ih => exact ⟨hp.1, ih hp.2⟩

lemma uses_forM {γ : Type} {l : List γ} {f : γ → Prog K V Unit} (h : ∀ c ∈ l, (f c).Uses P) :
    (l.forM f).Uses P := by
  induction l with
  | nil => trivial
  | cons c l ih =>
    exact uses_bind (h c (by simp)) fun _ => ih fun d hd => h d (List.mem_cons_of_mem c hd)

end Uses

/-! ## Execution -/

variable [DecidableEq K]

def exec (store : K → V) : Prog K V α → Trace K V → α × Trace K V
  | .done a, t => (a, t)
  | .get k next, t =>
    match t.writes.find k with
    | some v => exec store (next v) { t with reads := t.reads ++ [⟨k, v, true⟩] }
    | none => exec store (next (store k)) { t with reads := t.reads ++ [⟨k, store k, false⟩] }
  | .set k v next, t => exec store next { t with writes := t.writes.put k v }

def run (store : K → V) (p : Prog K V α) : α × Trace K V := p.exec store {}

section Exec

variable {store store' : K → V} {p : Prog K V α} {t : Trace K V}

lemma exec_get_own {k : K} {next : V → Prog K V α} {v : V} (h : t.writes.find k = some v) :
    (get k next).exec store t = (next v).exec store { t with reads :=
      t.reads ++ [⟨k, v, true⟩] } := by
  simp only [exec, h]

lemma exec_get_base {k : K} {next : V → Prog K V α} (h : t.writes.find k = none) :
    (get k next).exec store t =
      (next (store k)).exec store { t with reads := t.reads ++ [⟨k, store k, false⟩] } := by
  simp only [exec, h]

lemma mem_exec_reads {r : ReadRecord K V} (h : r ∈ t.reads) : r ∈ (p.exec store t).2.reads := by
  induction p generalizing t with
  | done a => exact h
  | get k next ih =>
    cases hk : t.writes.find k with
    | some v =>
      rw [exec_get_own hk]
      exact ih v (List.mem_append_left _ h)
    | none =>
      rw [exec_get_base hk]
      exact ih _ (List.mem_append_left _ h)
  | set k v next ih => exact ih h

lemma exec_congr (h : ∀ r ∈ (p.exec store t).2.reads, r.own = false → store' r.key = store r.key) :
    p.exec store' t = p.exec store t := by
  induction p generalizing t with
  | done a => rfl
  | get k next ih =>
    cases hk : t.writes.find k with
    | some v =>
      rw [exec_get_own hk] at h ⊢
      rw [exec_get_own hk]
      exact ih v h
    | none =>
      rw [exec_get_base hk] at h ⊢
      rw [exec_get_base hk]
      have hsame : store' k = store k := h ⟨k, store k, false⟩ (mem_exec_reads (by simp)) rfl
      rw [hsame]
      exact ih _ h
  | set k v next ih => exact ih h

lemma exec_uses {P : K → Prop} (hp : p.Uses P) (hreads : ∀ r ∈ t.reads, P r.key)
    (hwrs : ∀ k v, t.writes.find k = some v → P k) :
    (∀ r ∈ (p.exec store t).2.reads, P r.key) ∧ ∀ k v, (p.exec store t).2.writes.find k = some v →
      P k := by
  induction p generalizing t with
  | done a => exact ⟨hreads, hwrs⟩
  | get k next ih =>
    have happ : ∀ v own, ∀ r ∈ t.reads ++ [(⟨k, v, own⟩ : ReadRecord K V)], P r.key := by
      intro v own r hr
      rcases List.mem_append.1 hr with hr | hr
      · exact hreads r hr
      · rw [List.mem_singleton.1 hr]
        exact hp.1
    cases hk : t.writes.find k with
    | some v =>
      rw [exec_get_own hk]
      exact ih v (hp.2 v) (happ v true) hwrs
    | none =>
      rw [exec_get_base hk]
      exact ih _ (hp.2 _) (happ _ false) hwrs
  | set k v next ih =>
    refine ih hp.2 hreads ?_
    intro k' v' hfind
    by_cases hkk : k' = k
    · rw [hkk]
      exact hp.1
    · exact hwrs k' v' (by rwa [GoMap.find_put_ne _ _ hkk] at hfind)

end Exec

end Prog
end ChainLab
