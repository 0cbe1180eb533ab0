import ChainLab.Data.Footprint
import ChainLab.Execution.Transaction

/-!
# What an access list covers

Commutative and direct transactions touch the keys of their access lists, in the listed modes, and
nothing else.  `Listed R W` says that the keys of a list may be read (`R`) and written (`W`) in the
modes in which they are listed; the statements that work through a list then keep to `R` and `W`.
-/

namespace ChainLab.Execution

/-- The keys of an access list may be read and written as they are listed. -/
structure Listed (R W : String → Prop) (accesses : List AccessItem) : Prop where
  read : ∀ access ∈ accesses, access.key ≠ "" →
    access.mode = .read ∨ access.mode = .readWrite ∨ access.mode = .commutativeDelta → R access.key
  write : ∀ access ∈ accesses, access.key ≠ "" →
    access.mode = .write ∨ access.mode = .readWrite ∨ access.mode = .commutativeDelta → W access.key

variable {R W : String → Prop} {accesses : List AccessItem} {store : String → String}
  {w : GoMap String String}

lemma Listed.within_semanticReads (h : Listed R W accesses)
    {Q : Unit → GoMap String String → Prop} :
    (applyDeclaredSemanticReads accesses).Within store R W w Q ↔ Q () w := by
  refine Prog.within_forM_skip fun access hacc w Q => ?_
  split
  next hread =>
    have hkey : R access.key := h.read access hacc hread.2.1 (.inl hread.1)
    rw [Prog.within_bind, Prog.within_read, and_iff_right hkey]
    rfl
  next => rfl

lemma Listed.within_commutativeDeltas (h : Listed R W accesses) :
    (applyCommutativeDeltas accesses).Within store R W w fun _ _ => True := by
  refine Prog.within_forM fun access hacc w => ?_
  split
  next => trivial
  next hdelta =>
    simp only [ne_eq, not_or, not_not] at hdelta
    exact ⟨h.read access hacc hdelta.2 (.inr (.inr hdelta.1)),
      h.write access hacc hdelta.2 (.inr (.inr hdelta.1)), trivial⟩

lemma Listed.within_directAccess (digests : Digests) {item : SignedTransaction}
    (h : Listed R W item.accessList) :
    (applyDirectAccessTransaction digests item).Within store R W w fun _ _ => True := by
  refine Prog.within_forM fun access hacc w => ?_
  split
  next => trivial
  next hkey =>
    have hread := h.read access hacc hkey
    have hwrite := h.write access hacc hkey
    cases hmode : access.mode with
    | read => exact ⟨hread (.inl hmode), trivial⟩
    | write => exact ⟨hwrite (.inl hmode), trivial⟩
    | readWrite => exact ⟨hread (.inr (.inl hmode)), hwrite (.inr (.inl hmode)), trivial⟩
    | commutativeDelta =>
      -- a list of one access, which is listed as well
      have hone : Listed R W [access] := ⟨fun a ha => h.read a (List.mem_singleton.1 ha ▸ hacc),
          fun a ha => h.write a (List.mem_singleton.1 ha ▸ hacc)⟩
      exact hone.within_commutativeDeltas
    | unknown => trivial

lemma kinds_iff {pure cross direct relay transfer : Prop} (hrelay : cross → relay) :
    (¬pure → (cross → relay) ∧ (¬cross → ¬direct → transfer)) ↔ (pure ∨ cross ∨ direct) ∨
      transfer := by
  tauto

end ChainLab.Execution
