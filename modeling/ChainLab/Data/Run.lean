import Mathlib.Data.List.Basic

/-!
# Runs of a step function

A run feeds a list of inputs to a step function.  `stateAt` is the state before input number `i`,
and the induction rules carry a property through a whole run or through a stretch of it.
-/

namespace ChainLab.Run

variable {σ κ : Type} (step : σ → κ → σ) (start : σ) (inputs : List κ)

/-- The state in which input number `i` is handled; after the last input, the final state. -/
def stateAt (i : Nat) : σ :=
  (inputs.take i).foldl step start

@[simp] lemma stateAt_zero : stateAt step start inputs 0 = start := by
  simp [stateAt]

variable {step start inputs}

lemma stateAt_succ {i : Nat} {c : κ} (h : inputs[i]? = some c) :
    stateAt step start inputs (i + 1) = step (stateAt step start inputs i) c := by
  simp [stateAt, List.take_add_one, h]

lemma stateAt_succ_of_none {i : Nat} (h : inputs[i]? = none) :
    stateAt step start inputs (i + 1) = stateAt step start inputs i := by
  simp [stateAt, List.take_add_one, h]

lemma stretch_induction {P : σ → Prop} {i j : Nat} (hij : i ≤ j)
    (hi : P (stateAt step start inputs i))
    (hstep : ∀ k c, i ≤ k → k < j → inputs[k]? = some c → P (stateAt step start inputs k) →
      P (step (stateAt step start inputs k) c)) : P (stateAt step start inputs j) := by
  induction hij with
  | refl => exact hi
  | @step j hij ih =>
    have hj := ih fun k c hk hkj => hstep k c hk (Nat.lt_succ_of_lt hkj)
    cases hc : inputs[j]? with
    | none => simpa [stateAt_succ_of_none hc] using hj
    | some c => simpa [stateAt_succ hc] using hstep j c hij (Nat.lt_succ_self j) hc hj

lemma run_induction {P : σ → Prop} (hstart : P start) (hstep : ∀ s c, P s → P (step s c))
    (i : Nat) : P (stateAt step start inputs i) := by
  refine stretch_induction (Nat.zero_le i) (by simpa using hstart) ?_
  intro k c _ _ _ hk
  exact hstep _ c hk

/-- What one input of a run establishes and no step destroys holds at its end. -/
lemma foldl_of_mem {P : σ → Prop} {c : κ} (hc : c ∈ inputs) (hset : ∀ s, P (step s c))
    (hkeep : ∀ s, ∀ c ∈ inputs, P s → P (step s c)) (start : σ) : P (inputs.foldl step start) := by
  induction inputs generalizing start with
  | nil => cases hc
  | cons first inputs ih =>
    have hrest : ∀ s, ∀ c ∈ inputs, P s → P (step s c) := fun s c hc => hkeep s c (.tail _ hc)
    rcases List.mem_cons.1 hc with rfl | hc
    · exact List.foldlRecOn inputs step (hset start) fun s hs c hc => hrest s c hc hs
    · exact ih hc hrest _

/-! ## Checking a run -/

section Along

variable (step) (P : σ → κ → Prop)

/-- Every input satisfies `P` in the state in which it is handled. -/
def Along : σ → List κ → Prop
  | _, [] => True
  | s, c :: inputs => P s c ∧ Along (step s c) inputs

instance decidableAlong [∀ s c, Decidable (P s c)] : ∀ s inputs, Decidable (Along step P s inputs)
  | _, [] => isTrue trivial
  | s, c :: inputs =>
    have := decidableAlong (step s c) inputs
    inferInstanceAs (Decidable (P s c ∧ _))

variable {step P}

lemma forall_inputs_iff :
    (∀ i c, inputs[i]? = some c → P (stateAt step start inputs i) c) ↔
      Along step P start inputs := by
  induction inputs generalizing start with
  | nil => simp [Along]
  | cons first inputs ih =>
    rw [Along, ← ih]
    constructor
    · intro h
      exact ⟨h 0 first rfl, fun i c hc => h (i + 1) c hc⟩
    · rintro ⟨hfirst, hrest⟩ i c hc
      cases i with
      | zero => cases hc; exact hfirst
      | succ i => exact hrest i c hc

end Along

end ChainLab.Run
