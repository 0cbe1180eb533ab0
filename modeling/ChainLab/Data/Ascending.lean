import Mathlib.Data.List.Sort

/-!
# Lists in strictly ascending order of a key

A list that holds at most one entry for a key and keeps its entries sorted: what storing an entry
does to its members, and what a scan from its end finds.
-/

namespace ChainLab.Ascending

open List

variable {α K : Type} [LinearOrder K] (key : α → K)

def Ascends (l : List α) : Prop :=
  l.Pairwise fun a b => key a < key b

/-- Put `x` in the place of the first entry with its key, or at the end. -/
def place (x : α) : List α → List α
  | [] => [x]
  | y :: l => if key y = key x then x :: l else y :: place x l

def upsert (x : α) (l : List α) : List α :=
  (place key x l).insertionSort fun a b => key a ≤ key b

variable {key} {x y : α} {l : List α}

lemma Ascends.nodup (h : Ascends key l) : (l.map key).Nodup :=
  pairwise_map.2 (h.imp fun hlt => hlt.ne)

lemma place_perm (h : (l.map key).Nodup) : place key x l ~ x :: l.filter (key · ≠ key x) := by
  induction l with
  | nil => rfl
  | cons z l ih =>
    obtain ⟨hfresh, htail⟩ := nodup_cons.1 h
    by_cases hz : key z = key x
    · -- the entry that is replaced was the only one with its key
      have hkeep : l.filter (key · ≠ key x) = l := by
        refine filter_eq_self.2 fun y hy => decide_eq_true ?_
        exact fun heq => hfresh (hz ▸ heq ▸ mem_map_of_mem hy)
      rw [place, if_pos hz, filter_cons_of_neg (by simpa using hz), hkeep]
    · rw [place, if_neg hz, filter_cons_of_pos (by simpa using hz)]
      exact ((ih htail).cons z).trans (.swap x z _)

lemma upsert_perm (h : Ascends key l) : upsert key x l ~ x :: l.filter (key · ≠ key x) :=
  (perm_insertionSort _ _).trans (place_perm h.nodup)

lemma mem_upsert (h : Ascends key l) : y ∈ upsert key x l ↔ y = x ∨ y ∈ l ∧ key y ≠ key x := by
  simp [(upsert_perm h).mem_iff]

lemma ascending_upsert (h : Ascends key l) : Ascends key (upsert key x l) := by
  have hnodup : ((upsert key x l).map key).Nodup := by
    rw [((upsert_perm h).map key).nodup_iff, map_cons, nodup_cons]
    exact ⟨by simp, h.nodup.sublist (filter_sublist.map key)⟩
  have htotal : Std.Total fun a b : α => key a ≤ key b := ⟨fun a b => le_total _ _⟩
  have htrans : IsTrans α fun a b => key a ≤ key b := ⟨fun a b c => le_trans⟩
  have hsorted := pairwise_insertionSort (fun a b => key a ≤ key b) (place key x l)
  exact (hsorted.and (pairwise_map.1 hnodup)).imp fun hab => lt_of_le_of_ne hab.1 hab.2

lemma Ascends.filter (h : Ascends key l) (p : α → Bool) : Ascends key (l.filter p) :=
  Pairwise.filter p h

/-- A scan from the end stops at the greatest key among the entries it looks for. -/
lemma find?_reverse (h : Ascends key l) {p : α → Bool} (hfind : l.reverse.find? p = some y) :
    y ∈ l ∧ p y = true ∧ ∀ z ∈ l, p z = true → key z ≤ key y := by
  obtain ⟨hp, later, earlier, hsplit, hskip⟩ := find?_eq_some_iff_append.1 hfind
  have hl : l = earlier.reverse ++ y :: later.reverse := by
    simpa using congrArg List.reverse hsplit
  subst hl
  refine ⟨by simp, hp, ?_⟩
  intro z hz hpz
  rcases mem_append.1 hz with hz | hz
  · exact ((pairwise_append.1 h).2.2 z hz y mem_cons_self).le
  rcases mem_cons.1 hz with rfl | hz
  · exact le_rfl
  · have hno := hskip z (mem_reverse.1 hz)
    simp [hpz] at hno

end ChainLab.Ascending
