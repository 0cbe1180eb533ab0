import ChainLab.Data.Text
import ChainLab.Pbft.State

/-!
# Leader rotation over 64-bit views

`leaderForViewLocked` converts the view to `int` and takes a remainder as an index.  Go's remainder
has the sign of the dividend, so a view from `2 ^ 63` on can give a negative index, and the replica
panics. `State.leaderForView` is the function without the conversion.
-/

namespace ChainLab.Pbft.State

open List

/-- The position of the initial leader; a leader that is no validator counts as the first. -/
def leaderBase (s : State) : Nat :=
  if s.initialLeaderID ∈ s.validatorSet then s.validatorSet.idxOf s.initialLeaderID else 0

/-- Go's remainder as an index: `none` for a negative one, which panics. -/
def remainderIndex (sum : Int) (n : Nat) : Option Nat :=
  if sum.tmod n < 0 then none else some (sum.tmod n).toNat

def leaderIndex (s : State) (view : Nat) : Option Nat :=
  remainderIndex (Text.wrap (s.leaderBase + Text.wrap view)) s.validatorSet.length

/-- `leaderForViewLocked` as it is computed; `none` is the panic. -/
def leaderForViewLocked (s : State) (view : Nat) : Option String :=
  if s.validatorSet = [] then some s.initialLeaderID
  else (s.leaderIndex view).bind fun index => s.validatorSet[index]?

/-- The views whose leader the code finds: the sum fits into an `int`, or the wrapped sum leaves the
same remainder. -/
def Rotates (s : State) (view : Nat) : Prop :=
  s.leaderBase + view < 2 ^ 63 ∨ s.validatorSet.length ∣ 2 ^ 64 ∧
    (2 ^ 64 ≤ s.leaderBase + view ∨ s.validatorSet.length ∣ s.leaderBase + view)

instance (s : State) (view : Nat) : Decidable (s.Rotates view) :=
  inferInstanceAs (Decidable (_ ∨ _))

/-- The view whose leader a handler asks for, if the checks before that let the message through. -/
def leaderView (s : State) : PrePrepare ⊕ ViewChange ⊕ NewView → Option Nat
  | .inl msg => if msg.view = s.viewID then some msg.view else none
  | .inr (.inl msg) =>
    if s.isValidator msg.nodeID ∧ msg.view < msg.newView ∧ s.viewID < msg.newView then
      some msg.newView else none
  | .inr (.inr msg) => if s.viewID ≤ msg.view then some msg.view else none

/-- The handler of the message panics.  It has no other index into the validators. -/
def Panics (s : State) (msg : PrePrepare ⊕ ViewChange ⊕ NewView) : Prop :=
  ∃ view, s.leaderView msg = some view ∧ s.leaderForViewLocked view = none

variable {s : State} {view : Nat}

lemma remainderIndex_natCast (m n : Nat) : remainderIndex (m : Int) n = some (m % n) := by
  rw [remainderIndex, ← Int.ofNat_tmod, if_neg (by omega), Int.toNat_natCast]

lemma remainderIndex_neg (m n : Nat) :
    remainderIndex (-(m : Int)) n = if m % n = 0 then some 0 else none := by
  simp only [remainderIndex, Int.neg_tmod, ← Int.ofNat_tmod]
  split <;> split
  · omega
  · rfl
  · next h => simp [h]
  · omega

lemma leaderBase_lt (hne : s.validatorSet ≠ []) : s.leaderBase < s.validatorSet.length := by
  unfold leaderBase
  split
  · next h => exact idxOf_lt_length_of_mem h
  · exact length_pos_of_ne_nil hne

/-- The wrapped sum is the sum, or `2 ^ 64` less. -/
lemma wrap_sum {base view : Nat} (hbase : base < 2 ^ 63) (hview : view < 2 ^ 64) :
    Text.wrap (base + Text.wrap view) =
      if base + view < 2 ^ 63 then ((base + view : Nat) : Int)
      else ((base + view : Nat) : Int) - 2 ^ 64 := by
  have hsum : Text.wrap (base + Text.wrap view) = Text.wrap ((base + view : Nat) : Int) := by
    simp [Text.wrap]
  rw [hsum, Text.wrap, Int.bmod_def]
  split <;> split <;> omega

section

variable (hne : s.validatorSet ≠ [])

include hne

section

variable (hlen : s.validatorSet.length < 2 ^ 63)

include hlen

lemma leaderIndex_eq_iff (hview : view < 2 ^ 64) :
    s.leaderIndex view = some ((s.leaderBase + view) % s.validatorSet.length) ↔ s.Rotates view := by
  have hbase := leaderBase_lt hne
  have hwrap := wrap_sum (hbase.trans hlen) hview
  unfold leaderIndex Rotates
  rw [hwrap]
  generalize s.leaderBase + view = sum at *
  generalize s.validatorSet.length = n at *
  by_cases hfits : sum < 2 ^ 63
  · rw [if_pos hfits, remainderIndex_natCast]
    exact iff_of_true rfl (.inl hfits)
  rw [if_neg hfits]
  by_cases hwraps : 2 ^ 64 ≤ sum
  · rw [show (sum : Int) - 2 ^ 64 = ((sum - 2 ^ 64 : Nat) : Int) by omega, remainderIndex_natCast,
      Option.some_inj, ← Nat.ModEq, Nat.modEq_iff_dvd' (Nat.sub_le _ _), Nat.sub_sub_self hwraps]
    exact ⟨fun h => .inr ⟨h, .inl hwraps⟩, fun h => (h.resolve_left hfits).1⟩
  · -- the wrapped sum is negative, and the code gets through only if nothing remains
    rw [show (sum : Int) - 2 ^ 64 = -((2 ^ 64 - sum : Nat) : Int) by omega, remainderIndex_neg]
    have hdvd : n ∣ sum → (n ∣ 2 ^ 64 ↔ n ∣ 2 ^ 64 - sum) :=
      fun h => (Nat.dvd_sub_iff_left (by omega) h).symm
    constructor
    · intro h
      split at h
      · next hzero =>
        have hsum : n ∣ sum := Nat.dvd_of_mod_eq_zero (Option.some.inj h).symm
        exact .inr ⟨(hdvd hsum).2 (Nat.dvd_of_mod_eq_zero hzero), .inr hsum⟩
      · cases h
    · intro h
      have hsum := (h.resolve_left hfits).2.resolve_left hwraps
      rw [if_pos (Nat.mod_eq_zero_of_dvd ((hdvd hsum).1 (h.resolve_left hfits).1)),
        Nat.mod_eq_zero_of_dvd hsum]

lemma leaderForViewLocked_eq (hview : view < 2 ^ 64) (h : s.Rotates view) :
    s.leaderForViewLocked view = some (s.leaderForView view) := by
  have hindex := Nat.mod_lt (s.leaderBase + view) (length_pos_of_ne_nil hne)
  rw [leaderForViewLocked, if_neg hne, (leaderIndex_eq_iff hne hlen hview).2 h, leaderForView,
    if_neg hne, ← leaderBase]
  simp [hindex]

/-- Any `n` consecutive views elect every position once. -/
lemma elects_once (hrotates : ∀ i < s.validatorSet.length, view + i < 2 ^ 64 ∧
    s.Rotates (view + i)) :
    ((range s.validatorSet.length).map fun i => s.leaderForViewLocked (view + i)).Perm
      (s.validatorSet.map some) := by
  have hpos : 0 < s.validatorSet.length := length_pos_of_ne_nil hne
  have hlead : ∀ i < s.validatorSet.length, s.leaderForViewLocked (view + i) =
      s.validatorSet[(s.leaderBase + view + i) % s.validatorSet.length]? := by
    intro i hi
    obtain ⟨hview, hi⟩ := hrotates i hi
    rw [leaderForViewLocked, if_neg hne, (leaderIndex_eq_iff hne hlen hview).2 hi, Nat.add_assoc]
    rfl
  rw [map_congr_left fun i hi => hlead i (mem_range.1 hi)]
  have hall : s.validatorSet.map some = (range s.validatorSet.length).map fun i =>
    s.validatorSet[i]? := by
    refine ext_getElem? fun i => ?_
    by_cases hi : i < s.validatorSet.length <;> simp [hi]
  rw [hall, ← Function.comp_def (fun i => s.validatorSet[i]?), ← map_map]
  -- distinct positions below `n`, `n` of them
  refine Perm.map _ (Subperm.perm_of_length_le (Nodup.subperm ?_ ?_) (by simp))
  · refine Nodup.map_on (fun i hi j hj h => ?_) nodup_range
    exact Nat.ModEq.eq_of_lt_of_lt (Nat.ModEq.add_left_cancel' _ h) (mem_range.1 hi)
      (mem_range.1 hj)
  · intro j hj
    obtain ⟨i, -, rfl⟩ := mem_map.1 hj
    exact mem_range.2 (Nat.mod_lt _ hpos)

end

end

theorem leader_rotation (s : State) (hne : s.validatorSet ≠ [])
    (hlen : s.validatorSet.length < 2 ^ 63) :
    (∀ view < 2 ^ 64, s.leaderIndex view = some ((s.leaderBase + view) % s.validatorSet.length) ↔
      s.Rotates view) ∧
    (∀ view, (∀ i < s.validatorSet.length, view + i < 2 ^ 64 ∧ s.Rotates (view + i)) →
      ((range s.validatorSet.length).map fun i => s.leaderForViewLocked (view + i)).Perm
        (s.validatorSet.map some)) ∧
    ∀ msg, (∀ view, s.leaderView msg = some view → view < 2 ^ 64 ∧ s.Rotates view) →
      ¬ s.Panics msg := by
  refine ⟨fun view hview => leaderIndex_eq_iff hne hlen hview, fun view => elects_once hne hlen, ?_⟩
  rintro msg hmsg ⟨view, hview, hpanic⟩
  obtain ⟨hlt, hrotates⟩ := hmsg view hview
  rw [leaderForViewLocked_eq hne hlen hlt hrotates] at hpanic
  cases hpanic

def fourReplica : State := State.new "a" "a" ["a", "b", "c", "d"]

theorem leader_rotation_four : ((range 4).map fun i => fourReplica.leaderForViewLocked (7 + i)).Perm
      (["a", "b", "c", "d"].map some) :=
  (leader_rotation fourReplica (by decide) (by decide)).2.1 7 (by decide +kernel)

theorem panics_on_viewChange : fourReplica.Panics (.inr (.inl
      { view := 0, newView := 2 ^ 63 + 1, nodeID := "b", height := 1, leaderID := "b",
        stableCheckpoint := none, prepared := none, preparedBlock := none })) :=
  ⟨2 ^ 63 + 1, by decide +kernel, by decide +kernel⟩

end ChainLab.Pbft.State
