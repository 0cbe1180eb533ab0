import Mathlib.Data.List.Infix

/-!
# Version chains

An entry replaces one version of a cell by a later one; an entry that is a no-op takes the version
and leaves the value.  Entries may come in any order, and two readers of them are studied.
-/

namespace ChainLab.VersionChain

open List

structure Entry (V : Type) where
  previous : Nat
  produced : Nat
  noop : Bool := false
  value : V
deriving DecidableEq, Repr

variable {V : Type}

/-! ## Chains -/

inductive Linked : Nat → List (Entry V) → Nat → Prop where
  | nil (p : Nat) : Linked p [] p
  | cons {p q : Nat} {d : Entry V} {ds : List (Entry V)} (hprevious : d.previous = p)
      (hproduced : p < d.produced) (hrest : Linked d.produced ds q) : Linked p (d :: ds) q

namespace Linked

variable {p q r : Nat} {l l' : List (Entry V)} {d d' : Entry V}

section

variable (h : Linked p l q)

include h

lemma append (h' : Linked q l' r) : Linked p (l ++ l') r := by
  induction h with
  | nil => exact h'
  | cons hprev hprod _ ih => exact .cons hprev hprod (ih h')

lemma le : p ≤ q := by
  induction h with
  | nil => exact Nat.le_refl _
  | cons _ hprod _ ih => exact (Nat.le_of_lt hprod).trans ih

lemma bounds (hd : d ∈ l) : p ≤ d.previous ∧ d.previous < d.produced ∧ d.produced ≤ q := by
  induction h with
  | nil => cases hd
  | cons hprev hprod hrest ih =>
    rcases mem_cons.1 hd with rfl | hd
    · exact ⟨hprev.ge, hprev ▸ hprod, hrest.le⟩
    · obtain ⟨hle, hlt, hle'⟩ := ih hd
      exact ⟨(Nat.le_of_lt hprod).trans hle, hlt, hle'⟩

lemma eq_of_eq (hd : d ∈ l) (hd' : d' ∈ l)
    (heq : d.previous = d'.previous ∨ d.produced = d'.produced) : d = d' := by
  induction h with
  | nil => cases hd
  | cons hprev hprod hrest ih =>
    rcases mem_cons.1 hd with rfl | hmem <;> rcases mem_cons.1 hd' with rfl | hmem'
    · rfl
    · have hle := hrest.bounds hmem'
      omega
    · have hle := hrest.bounds hmem
      omega
    · exact ih hmem hmem'

lemma eq_append {path : List (Entry V)} {f : Nat} (hpath : Linked p path f)
    (hsub : ∀ d ∈ path, d ∈ l) : ∃ rest, l = path ++ rest ∧ Linked f rest q := by
  induction hpath generalizing l with
  | nil => exact ⟨l, rfl, h⟩
  | @cons p f x xs hprev hprod hrest ih =>
    cases h with
    | nil => cases hsub x mem_cons_self
    | @cons _ _ d ds hprev' hprod' hrest' =>
      -- Both chains leave `p` by the same entry.
      have hlink := Linked.cons hprev' hprod' hrest'
      have hxd : x = d := hlink.eq_of_eq (hsub x mem_cons_self) mem_cons_self
        (.inl (hprev.trans hprev'.symm))
      subst hxd
      have htail : ∀ d ∈ xs, d ∈ ds := by
        intro e he
        rcases mem_cons.1 (hsub e (mem_cons_of_mem x he)) with rfl | hmem
        · have hle := hrest.bounds he
          omega
        · exact hmem
      obtain ⟨rest, rfl, hlast⟩ := ih hrest' htail
      exact ⟨rest, rfl, hlast⟩

lemma pairwise : l.Pairwise fun d e => d.produced < e.produced := by
  induction h with
  | nil => exact List.Pairwise.nil
  | cons _ _ hrest ih =>
    refine pairwise_cons.2 ⟨fun e he => ?_, ih⟩
    obtain ⟨hle, hlt, -⟩ := hrest.bounds he
    exact lt_of_le_of_lt hle hlt

end

lemma eq_end (h : Linked p (l ++ [d]) q) : d.produced = q := by
  induction l generalizing p with
  | nil =>
    cases h with
    | cons _ _ hrest =>
      cases hrest
      rfl
  | cons _ _ ih =>
    cases h with
    | cons _ _ hrest => exact ih hrest

end Linked

/-! ## A pass that moves a frontier -/

def drain : Nat → List (Entry V) → Nat
  | current, [] => current
  | current, d :: l =>
    if d.previous = current ∧ current < d.produced then drain d.produced l else drain current l

lemma le_drain (current : Nat) (l : List (Entry V)) : current ≤ drain current l := by
  induction l generalizing current with
  | nil => exact Nat.le_refl current
  | cons d l ih =>
    simp only [drain]
    split
    · rename_i hmove
      exact (Nat.le_of_lt hmove.2).trans (ih d.produced)
    · exact ih current

lemma drain_cases (current : Nat) (l : List (Entry V)) :
    drain current l = current ∨ ∃ d ∈ l, drain current l = d.produced := by
  induction l generalizing current with
  | nil => exact .inl rfl
  | cons d l ih =>
    simp only [drain]
    split
    · rcases ih d.produced with hstay | ⟨e, he, heq⟩
      · exact .inr ⟨d, mem_cons_self, hstay⟩
      · exact .inr ⟨e, mem_cons_of_mem d he, heq⟩
    · rcases ih current with hstay | ⟨e, he, heq⟩
      · exact .inl hstay
      · exact .inr ⟨e, mem_cons_of_mem d he, heq⟩

variable {l : List (Entry V)} {d : Entry V}

lemma drain_closed (hsort : l.Pairwise fun d e => d.produced ≤ e.produced) (current : Nat) :
    ∀ d ∈ l, d.previous = drain current l → d.produced ≤ drain current l := by
  induction l generalizing current with
  | nil => exact fun d hd => absurd hd not_mem_nil
  | cons d l ih =>
    obtain ⟨hhead, htail⟩ := pairwise_cons.1 hsort
    intro e he hprev
    rcases mem_cons.1 he with rfl | he
    · simp only [drain] at hprev ⊢
      split
      · exact le_drain e.produced l
      rename_i hstay
      rw [if_neg hstay] at hprev
      -- The head was passed over, so a later move would have gone beyond its version.
      rcases drain_cases current l with hfix | ⟨x, hx, hmoved⟩
      · rw [hfix] at hprev ⊢
        exact Nat.le_of_not_lt fun hlt => hstay ⟨hprev, hlt⟩
      · rw [hmoved]
        exact hhead x hx
    · simp only [drain] at hprev ⊢
      split
      · rename_i hmove
        rw [if_pos hmove] at hprev
        exact ih htail d.produced e he hprev
      · rename_i hstay
        rw [if_neg hstay] at hprev
        exact ih htail current e he hprev

/-! ## The value of the highest version met so far -/

structure Register (V : Type) where
  version : Nat
  value : V
deriving DecidableEq, Repr

def absorb (r : Register V) (d : Entry V) : Register V :=
  if d.produced ≤ r.version then r
  else ⟨d.produced, if d.noop then r.value else d.value⟩

def absorbAll (r : Register V) (l : List (Entry V)) : Register V :=
  l.foldl absorb r

variable (r : Register V)

lemma absorb_version (d : Entry V) : (absorb r d).version = max r.version d.produced := by
  unfold absorb
  split
  · rename_i hle
    exact (Nat.max_eq_left hle).symm
  · rename_i hlt
    exact (Nat.max_eq_right (Nat.le_of_not_le hlt)).symm

@[simp] lemma absorbAll_cons (d : Entry V) (l : List (Entry V)) :
    absorbAll r (d :: l) = absorbAll (absorb r d) l := rfl

lemma absorbAll_append (l l' : List (Entry V)) :
    absorbAll r (l ++ l') = absorbAll (absorbAll r l) l' :=
  foldl_append

lemma absorbAll_version (l : List (Entry V)) :
    (absorbAll r l).version = l.foldl (fun n d => max n d.produced) r.version := by
  induction l generalizing r with
  | nil => rfl
  | cons d l ih => rw [absorbAll_cons, ih, absorb_version, foldl_cons]

lemma version_le_absorbAll (l : List (Entry V)) : r.version ≤ (absorbAll r l).version := by
  induction l generalizing r with
  | nil => exact Nat.le_refl _
  | cons d l ih =>
    calc r.version ≤ (absorb r d).version := by
          rw [absorb_version]
          exact Nat.le_max_left _ _
      _ ≤ (absorbAll r (d :: l)).version := ih (absorb r d)

lemma produced_le_absorbAll (hd : d ∈ l) : d.produced ≤ (absorbAll r l).version := by
  induction l generalizing r with
  | nil => cases hd
  | cons e l ih =>
    rcases mem_cons.1 hd with rfl | hd
    · calc d.produced ≤ (absorb r d).version := by
            rw [absorb_version]
            exact Nat.le_max_right _ _
        _ ≤ (absorbAll r (d :: l)).version := version_le_absorbAll (absorb r d) l
    · exact ih (absorb r e) hd

lemma absorbAll_version_lt {n : Nat} (hr : r.version < n)
    (hl : ∀ d ∈ l, d.produced < n) : (absorbAll r l).version < n := by
  induction l generalizing r with
  | nil => exact hr
  | cons d l ih =>
    refine ih (absorb r d) ?_ fun e he => hl e (mem_cons_of_mem d he)
    rw [absorb_version]
    exact Nat.max_lt.2 ⟨hr, hl d mem_cons_self⟩

lemma absorbAll_value_of_idle
    (hl : ∀ d ∈ l, d.noop = false → d.produced ≤ r.version) : (absorbAll r l).value = r.value := by
  induction l generalizing r with
  | nil => rfl
  | cons d l ih =>
    rw [absorbAll_cons, ih]
    · unfold absorb
      split
      · rfl
      rename_i hnew
      cases hnoop : d.noop with
      | true => rfl
      | false => exact absurd (hl d mem_cons_self hnoop) hnew
    · intro e he hwrite
      rw [absorb_version]
      exact (hl e (mem_cons_of_mem d he) hwrite).trans (Nat.le_max_left _ _)

lemma absorbAll_of_record {pre post : List (Entry V)}
    (hr : r.version < d.produced) (hwrite : d.noop = false)
    (hpre : ∀ e ∈ pre, e.produced < d.produced)
    (hpost : ∀ e ∈ post, e.noop = false → e.produced ≤ d.produced) :
    (absorbAll r (pre ++ d :: post)).value = d.value := by
  have hbef : (absorbAll r pre).version < d.produced := absorbAll_version_lt r hr hpre
  have hafter : absorb (absorbAll r pre) d = ⟨d.produced, d.value⟩ := by
    rw [absorb, if_neg (Nat.not_le.2 hbef), hwrite]
    rfl
  rw [absorbAll_append, absorbAll_cons, hafter]
  exact absorbAll_value_of_idle _ hpost

lemma absorbAll_filter {v : Nat} (hv : v ≤ r.version) (l : List (Entry V)) :
    absorbAll r (l.filter fun d => d.produced ≠ v) = absorbAll r l := by
  induction l generalizing r with
  | nil => rfl
  | cons d l ih =>
    have hvers : v ≤ (absorb r d).version := by
      rw [absorb_version]
      exact hv.trans (Nat.le_max_left _ _)
    by_cases hd : d.produced = v
    · have hidle : absorb r d = r := by
        rw [absorb, if_pos (hd.trans_le hv)]
      rw [filter_cons_of_neg (by simp [hd]), absorbAll_cons, hidle]
      exact ih r hv
    · rw [filter_cons_of_pos (by simp [hd]), absorbAll_cons, absorbAll_cons]
      exact ih (absorb r d) hvers

def accepted : Nat → List (Entry V) → List (Entry V)
  | _, [] => []
  | current, d :: l =>
    if d.produced ≤ current then accepted current l
    else if d.noop then accepted d.produced l
    else d :: accepted d.produced l

lemma absorbAll_value (l : List (Entry V)) :
    (absorbAll r l).value = (accepted r.version l).foldl (fun _ d => d.value) r.value := by
  induction l generalizing r with
  | nil => rfl
  | cons d l ih =>
    rw [absorbAll_cons, ih, accepted]
    unfold absorb
    split
    · rfl
    · split <;> rfl

lemma accepted_above (current : Nat) (l : List (Entry V)) :
    ∀ d ∈ accepted current l, current < d.produced := by
  induction l generalizing current with
  | nil => exact fun d hd => absurd hd not_mem_nil
  | cons e l ih =>
    intro d hd
    simp only [accepted] at hd
    split at hd
    · exact ih current d hd
    rename_i hnew
    have hlt : current < e.produced := Nat.lt_of_not_le hnew
    split at hd
    · exact hlt.trans (ih e.produced d hd)
    rcases mem_cons.1 hd with rfl | hd
    · exact hlt
    · exact hlt.trans (ih e.produced d hd)

lemma accepted_pairwise (current : Nat) (l : List (Entry V)) :
    (accepted current l).Pairwise fun d e => d.produced < e.produced := by
  induction l generalizing current with
  | nil => exact List.Pairwise.nil
  | cons d l ih =>
    simp only [accepted]
    split
    · exact ih current
    split
    · exact ih d.produced
    · exact pairwise_cons.2 ⟨accepted_above d.produced l, ih d.produced⟩

end ChainLab.VersionChain
