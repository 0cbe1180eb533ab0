import ChainLab.Execution.GroundhogTable

/-!
# Reservations in place

`reserveTransaction` as the code runs it: every modification changes the table itself, what a key
held before its first modification is kept as a backup, and a conflict puts the backups back.  The
two are maps, so the backups come back in any order.  Objects are values here: what
`cloneGroundhogObject` copies, so that the table cannot change a backup, is the object itself.
-/

namespace ChainLab

namespace Keyed

variable {K V : Type} [DecidableEq K] {base objects : Store K V} {backups : List (K × Option V)}

def restoreAll (objects : Store K V) (backups : List (K × Option V)) : Store K V :=
  backups.foldl (fun objects e => restore objects e.1 e.2) objects

lemma restoreAll_eq (hsaved : ∀ e ∈ backups, e.2 = base.lookup e.1)
    (hother : ∀ k, k ∉ backups.map Prod.fst → objects.lookup k = base.lookup k) :
    restoreAll objects backups = base := by
  induction backups generalizing objects with
  | nil => exact Finmap.ext_lookup fun k => hother k (by simp)
  | cons e backups ih =>
    refine ih (fun e' he' => hsaved e' (List.mem_cons_of_mem _ he')) fun k hk => ?_
    rw [lookup_restore]
    split
    next heq => rw [heq, hsaved e List.mem_cons_self]
    next hne => exact hother k (by simpa [hne] using hk)

end Keyed

namespace Execution.Groundhog

/-- The order in which Go iterates over a map. -/
structure Iteration (α : Type) where
  order : List α → List α
  perm : ∀ entries, (order entries).Perm entries

namespace TableBase

variable (t : TableBase) (iteration : Iteration (String × Option Object))

/-- `applyModification` on the table; an object that is not there is created before the checks. -/
def modify (objects : Objects) (m : Modification) : Objects × Option Conflict :=
  let object := (objects.lookup m.key).getD (t.newObject m)
  match applyChange m.key object m.change with
  | .ok next => (objects.insert m.key next, none)
  | .error conflict => (objects.insert m.key object, some conflict)

def reserveLoop (objects : Objects) (backups : List (String × Option Object)) :
    List Modification → Objects × Option Conflict
  | [] => (objects, none)
  | m :: rest =>
    let backups := Keyed.note backups m.key (objects.lookup m.key)
    match t.modify objects m with
    | (objects, none) => reserveLoop objects backups rest
    | (objects, some conflict) =>
      (Keyed.restoreAll objects (iteration.order backups), some conflict)

def reserveInPlace (objects : Objects) (modifications : List Modification) :
    Objects × Option Conflict :=
  t.reserveLoop iteration objects [] modifications

variable {t iteration}

-- the backups hold the table `base` of the call's beginning, and what has no backup is unchanged
lemma reserveLoop_spec {base objects : Objects} {backups : List (String × Option Object)}
    (hsaved : ∀ e ∈ backups, e.2 = base.lookup e.1)
    (hother : ∀ k, k ∉ backups.map Prod.fst → objects.lookup k = base.lookup k)
    (modifications : List Modification) :
    t.reserveLoop iteration objects backups modifications =
      match t.reserveTransaction objects modifications with
      | .ok next => (next, none)
      | .error conflict => (base, some conflict) := by
  induction modifications generalizing objects backups with
  | nil => rfl
  | cons m rest ih =>
    have hnoted : ∀ e ∈ Keyed.note backups m.key (objects.lookup m.key), e.2 = base.lookup e.1 := by
      unfold Keyed.note
      split
      next => exact hsaved
      next hnew => exact List.forall_mem_cons.2 ⟨hother _ hnew, hsaved⟩
    have hrest : ∀ object k, k ∉ (Keyed.note backups m.key (objects.lookup m.key)).map Prod.fst →
        (objects.insert m.key object).lookup k = base.lookup k := by
      intro object k hk
      rw [Keyed.mem_note, not_or] at hk
      rw [Finmap.lookup_insert_of_ne _ hk.1]
      exact hother k hk.2
    cases hchange : applyChange m.key ((objects.lookup m.key).getD (t.newObject m)) m.change with
    | ok next =>
      simp only [reserveTransaction, List.foldlM_cons, applyModification, reserveLoop, modify,
        hchange]
      exact ih hnoted (hrest next)
    | error conflict =>
      have hback := Keyed.restoreAll_eq (fun e he => hnoted e ((iteration.perm _).mem_iff.1 he))
        fun k hk =>
          hrest ((objects.lookup m.key).getD (t.newObject m)) k
            fun hk' => hk (((iteration.perm _).map _).mem_iff.2 hk')
      simp only [reserveTransaction, List.foldlM_cons, applyModification, reserveLoop, modify,
        hchange]
      exact congrArg (·, some conflict) hback

/-- A reservation that fails leaves the table as it was; one that succeeds has applied all its
modifications. -/
theorem reservation_atomic (t : TableBase) (iteration : Iteration (String × Option Object))
    (objects : Objects) (modifications : List Modification) :
    (∀ conflict, (t.reserveInPlace iteration objects modifications).2 = some conflict →
      (t.reserveInPlace iteration objects modifications).1 = objects) ∧
    t.reserveInPlace iteration objects modifications =
      match t.reserveTransaction objects modifications with
      | .ok next => (next, none)
      | .error conflict => (objects, some conflict) := by
  have hrun : t.reserveInPlace iteration objects modifications = _ :=
    reserveLoop_spec (fun _ h => absurd h List.not_mem_nil) (fun _ _ => rfl) modifications
  refine ⟨fun conflict hconflict => ?_, hrun⟩
  rw [hrun] at hconflict ⊢
  split at hconflict
  next => cases hconflict
  next => rfl

end TableBase
end Execution.Groundhog
end ChainLab
