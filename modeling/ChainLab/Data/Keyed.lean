import Mathlib
import ChainLab.Data.Result

/-!
# Stores of independent objects

A store holds one object for each key, and a change reads and writes the object of its own key.  A
call is a list of changes that takes effect as a whole: when one of them fails, the store stays what
it was.
-/

namespace ChainLab

open List

/-- Changes `M` of objects `V` under keys `K` that may fail with an `E`. -/
structure Keyed (K V M E : Type) where
  key : M → K
  step : M → Option V → Except E V

namespace Keyed

abbrev Store (K V : Type) := Finmap fun _ : K => V

section Sorted

variable {K V : Type} [LinearOrder K]

def sortedKeys (objects : Store K V) : List K :=
  Quotient.liftOn objects.keys.val (fun l => l.insertionSort (· ≤ ·)) (by
    intro l l' hperm
    have hsorted : ∀ l : List K, (l.insertionSort (· ≤ ·)).Pairwise (· ≤ ·) :=
      pairwise_insertionSort (· ≤ ·)
    exact List.Perm.eq_of_pairwise (fun a b _ _ => le_antisymm) (hsorted l) (hsorted l')
      (((perm_insertionSort _ l).trans hperm).trans (perm_insertionSort _ l').symm))

lemma mem_sortedKeys {objects : Store K V} {k : K} : k ∈ sortedKeys objects ↔ k ∈ objects := by
  rw [← Finmap.mem_keys, ← Finset.mem_val]
  unfold sortedKeys
  induction objects.keys.val using Quotient.inductionOn with
  | h l =>
    simp only [Quotient.liftOn_mk]
    exact mem_insertionSort (· ≤ ·)

end Sorted

variable {K V M E : Type} [DecidableEq K] (ops : Keyed K V M E)

/-! ## Calls -/

def apply (objects : Store K V) (m : M) : Except E (Store K V) :=
  (ops.step m (objects.lookup (ops.key m))).map (objects.insert (ops.key m))

def call (objects : Store K V) (ms : List M) : Except E (Store K V) :=
  ms.foldlM ops.apply objects

def run (k : K) (v : Option V) (ms : List M) : Except E (Option V) :=
  (ms.filter fun m => ops.key m = k).foldlM (fun v m => (ops.step m v).map some) v

def after (objects : Store K V) (ms : List M) : Store K V :=
  match ops.call objects ms with
  | .ok next => next
  | .error _ => objects

def failure (objects : Store K V) (ms : List M) : Option E :=
  match ops.call objects ms with
  | .ok _ => none
  | .error err => some err

def serial (objects : Store K V) (calls : List (List M)) : Store K V :=
  calls.foldl ops.after objects

variable {ops}

@[simp] lemma call_nil (objects : Store K V) : ops.call objects [] = .ok objects := rfl

@[simp] lemma run_nil (k : K) (v : Option V) : ops.run k v [] = .ok v := rfl

lemma call_cons (objects : Store K V) (m : M) (ms : List M) :
    ops.call objects (m :: ms) = (ops.apply objects m) >>= fun next => ops.call next ms := by
  unfold call
  exact foldlM_cons

lemma call_append (objects : Store K V) (ms ms' : List M) :
    ops.call objects (ms ++ ms') = (ops.call objects ms) >>= fun next => ops.call next ms' := by
  unfold call
  exact foldlM_append

variable {m : M} {ms : List M} {last objects : Store K V}

lemma run_cons_of_ne {k : K} {v : Option V} (h : ops.key m ≠ k) :
    ops.run k v (m :: ms) = ops.run k v ms := by
  simp [run, h]

lemma run_cons_self (v : Option V) (m : M) (ms : List M) : ops.run (ops.key m) v (m :: ms) =
      (ops.step m v).map some >>= fun next => ops.run (ops.key m) next ms := by
  unfold run
  rw [filter_cons_of_pos (by simp), foldlM_cons]

lemma apply_eq_ok_iff {next : Store K V} :
    ops.apply objects m = .ok next ↔ ∃ v, ops.step m (objects.lookup (ops.key m)) = .ok v ∧
      next = objects.insert (ops.key m) v := by
  unfold apply
  rw [Result.map_eq_ok]
  simp only [eq_comm]

lemma call_cons_eq_ok : ops.call objects (m :: ms) = .ok last ↔
      ∃ v, ops.step m (objects.lookup (ops.key m)) = .ok v ∧
        ops.call (objects.insert (ops.key m) v) ms = .ok last := by
  rw [call_cons, Result.bind_eq_ok]
  constructor
  · rintro ⟨next, hnext, hlast⟩
    obtain ⟨v, hv, rfl⟩ := apply_eq_ok_iff.1 hnext
    exact ⟨v, hv, hlast⟩
  · rintro ⟨v, hv, hlast⟩
    exact ⟨_, apply_eq_ok_iff.2 ⟨v, hv, rfl⟩, hlast⟩

/-! ## One key at a time -/

lemma run_of_call (h : ops.call objects ms = .ok last) (k : K) :
    ops.run k (objects.lookup k) ms = .ok (last.lookup k) := by
  induction ms generalizing objects with
  | nil =>
    cases h
    rfl
  | cons m ms ih =>
    obtain ⟨v, hv, hlast⟩ := call_cons_eq_ok.1 h
    have hrest := ih hlast
    by_cases hk : ops.key m = k
    · subst hk
      rw [Finmap.lookup_insert] at hrest
      rw [run_cons_self, hv]
      exact hrest
    · rw [Finmap.lookup_insert_of_ne _ (Ne.symm hk)] at hrest
      rw [run_cons_of_ne hk]
      exact hrest

lemma lookup_of_call {k : K} (h : ops.call objects ms = .ok last) (hk : ∀ m ∈ ms, ops.key m ≠ k) :
    last.lookup k = objects.lookup k := by
  have hrun := run_of_call h k
  have hnone : ms.filter (fun m => ops.key m = k) = [] := by
    rw [filter_eq_nil_iff]
    intro m hm
    simpa using hk m hm
  rw [run, hnone] at hrun
  exact (Except.ok.inj hrun).symm

lemma call_congr {objects' : Store K V} {ks : List K}
    (hsame : ∀ k ∈ ks, objects.lookup k = objects'.lookup k) (hks : ∀ m ∈ ms, ops.key m ∈ ks) :
    (∀ last, ops.call objects ms = .ok last → ∃ last', ops.call objects' ms = .ok last' ∧
        ∀ k ∈ ks, last.lookup k = last'.lookup k) ∧
      ∀ err, ops.call objects ms = .error err → ops.call objects' ms = .error err := by
  induction ms generalizing objects objects' with
  | nil =>
    constructor
    · rintro last ⟨⟩
      exact ⟨objects', rfl, hsame⟩
    · rintro err ⟨⟩
  | cons m ms ih =>
    have hm := hsame _ (hks m (by simp))
    cases hv : ops.step m (objects.lookup (ops.key m)) with
    | error err =>
      have hv' : ops.step m (objects'.lookup (ops.key m)) = .error err := hm ▸ hv
      have hcall : ops.call objects (m :: ms) = .error err := by
        simp [call_cons, apply, hv, Except.map, bind, Except.bind]
      have hcall' : ops.call objects' (m :: ms) = .error err := by
        simp [call_cons, apply, hv', Except.map, bind, Except.bind]
      rw [hcall, hcall']
      simp
    | ok v =>
      have hv' : ops.step m (objects'.lookup (ops.key m)) = .ok v := hm ▸ hv
      have hcall : ops.call objects (m :: ms) = ops.call (objects.insert (ops.key m) v) ms := by
        simp [call_cons, apply, hv, Except.map, bind, Except.bind]
      have hcall' : ops.call objects' (m :: ms) = ops.call (objects'.insert (ops.key m) v) ms := by
        simp [call_cons, apply, hv', Except.map, bind, Except.bind]
      rw [hcall, hcall']
      apply ih _ fun m' hm' => hks m' (by simp [hm'])
      intro k hk
      by_cases hkm : k = ops.key m
      · subst hkm
        rw [Finmap.lookup_insert, Finmap.lookup_insert]
      · rw [Finmap.lookup_insert_of_ne _ hkm, Finmap.lookup_insert_of_ne _ hkm]
        exact hsame k hk

/-! ## Calls one after the other -/

lemma after_of_call {next : Store K V} (h : ops.call objects ms = .ok next) :
    ops.after objects ms = next := by
  simp [after, h]

lemma failure_eq_none :
    ops.failure objects ms = none ↔ ops.call objects ms = .ok (ops.after objects ms) := by
  unfold failure after
  cases ops.call objects ms with
  | ok next | error err => simp

lemma call_flatten_iff {calls : List (List M)} :
    ops.call objects calls.flatten = .ok last ↔ last = ops.serial objects calls ∧
      ∀ front ms back, calls = front ++ ms :: back →
        ops.failure (ops.serial objects front) ms = none := by
  induction calls generalizing objects with
  | nil =>
    simp [serial, eq_comm]
  | cons ms calls ih =>
    rw [flatten_cons, call_append, Result.bind_eq_ok]
    constructor
    · rintro ⟨next, hnext, hlast⟩
      have hfail : ops.failure objects ms = none := by simp [failure, hnext]
      obtain ⟨rfl, hall⟩ := ih.1 hlast
      have hserial : ops.serial objects (ms :: calls) = ops.serial next calls := by
        simp [serial, after_of_call hnext]
      refine ⟨hserial.symm, ?_⟩
      intro front ms' back hsplit
      cases front with
      | nil =>
        cases hsplit
        exact hfail
      | cons first front =>
        obtain ⟨rfl, htail⟩ := List.cons.inj hsplit
        have hback := hall front ms' back htail
        simpa [serial, after_of_call hnext] using hback
    · rintro ⟨rfl, hall⟩
      have hfirst := failure_eq_none.1 (hall [] ms calls rfl)
      refine ⟨_, hfirst, ih.2 ⟨rfl, ?_⟩⟩
      intro front ms' back hsplit
      exact hall (ms :: front) ms' back (by rw [hsplit]; rfl)

end Keyed
end ChainLab
