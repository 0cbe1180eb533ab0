import Mathlib.Data.Nat.Basic
import Mathlib.Data.List.Basic

/-!
# Self-delimiting codes

A code writes values as bits so that a reader knows where a value ends.  Codes of numbers, lists and
pairs are put together from codes of their parts; `imap` changes the values along a map with a left
inverse, so that records are coded field by field.
-/

namespace ChainLab

structure Code (α : Type) where
  put : α → List Bool
  take : List Bool → Option (α × List Bool)
  take_put : ∀ a rest, take (put a ++ rest) = some (a, rest)

namespace Code

variable {α β : Type}

/-! ## Numbers -/

/-- The binary digits of `n`, lowest first, each after a `true`, and a `false` at the end. -/
def putNat : (fuel n : Nat) → List Bool
  | 0, _ => [false]
  | fuel + 1, n => if n = 0 then [false] else true :: decide (n % 2 = 1) :: putNat fuel (n / 2)

def takeNat : List Bool → Option (Nat × List Bool)
  | false :: rest => some (0, rest)
  | true :: digit :: rest => (takeNat rest).map fun p => (2 * p.1 + digit.toNat, p.2)
  | _ => none

lemma takeNat_putNat (fuel n : Nat) (rest : List Bool) (h : n ≤ fuel) :
    takeNat (putNat fuel n ++ rest) = some (n, rest) := by
  induction fuel generalizing n with
  | zero =>
    have hn : n = 0 := by omega
    subst hn
    rfl
  | succ fuel ih =>
    unfold putNat
    split
    · next hn =>
      subst hn
      rfl
    · next hn =>
      have hhalf := ih (n / 2) (by omega)
      simp only [List.cons_append, takeNat, hhalf, Option.map_some]
      rcases Nat.mod_two_eq_zero_or_one n with hmod | hmod
      all_goals
        simp only [hmod, Option.some.injEq, Prod.mk.injEq, and_true]
        simp
        omega

def nat : Code Nat where
  put n := putNat n n
  take := takeNat
  take_put n rest := takeNat_putNat n n rest le_rfl

/-! ## Put together -/

def pair (a : Code α) (b : Code β) : Code (α × β) where
  put p := a.put p.1 ++ b.put p.2
  take bits := (a.take bits).bind fun p => (b.take p.2).map fun q => ((p.1, q.1), q.2)
  take_put p rest := by
    simp [List.append_assoc, a.take_put, b.take_put]

/-- `count` values in a row. -/
def takeMany (a : Code α) : (count : Nat) → List Bool → Option (List α × List Bool)
  | 0, bits => some ([], bits)
  | count + 1, bits =>
    (a.take bits).bind fun p => (takeMany a count p.2).map fun q => (p.1 :: q.1, q.2)

lemma takeMany_flatMap (a : Code α) (l : List α) (rest : List Bool) :
    a.takeMany l.length (l.flatMap a.put ++ rest) = some (l, rest) := by
  induction l with
  | nil => rfl
  | cons x l ih => simp [takeMany, List.append_assoc, a.take_put, ih]

def list (a : Code α) : Code (List α) where
  put l := nat.put l.length ++ l.flatMap a.put
  take bits := (nat.take bits).bind fun p => a.takeMany p.1 p.2
  take_put l rest := by
    simp [List.append_assoc, nat.take_put, a.takeMany_flatMap]

/-- The code of `α` for values that `f` writes as an `α` and `g` reads back. -/
def imap (a : Code α) (f : β → α) (g : α → β) (h : ∀ b, g (f b) = b) : Code β where
  put b := a.put (f b)
  take bits := (a.take bits).map fun p => (g p.1, p.2)
  take_put b rest := by simp [a.take_put, h]

def bool : Code Bool :=
  nat.imap Bool.toNat (fun n => n = 1) (by decide)

def int : Code Int :=
  (bool.pair nat).imap (fun n => (decide (n < 0), n.natAbs))
    (fun p => if p.1 then -(p.2 : Int) else p.2) (by
      intro n
      by_cases hn : n < 0
      · simp only [hn, decide_true, if_true]
        omega
      · simp only [hn, decide_false, Bool.false_eq_true, if_false]
        omega)

def char : Code Char :=
  nat.imap Char.toNat Char.ofNat Char.ofNat_toNat

def string : Code String :=
  char.list.imap String.toList String.ofList (by simp)

end Code
end ChainLab
