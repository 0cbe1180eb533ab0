import Mathlib

/-!
# Numbers as text, and machine integers

The functions of the `strings` and `strconv` packages that state values go through.  A value that
does not parse is not an error for the callers: they take the number that `strconv` returns beside
the error, which is zero for malformed text and the nearest bound for a number out of range.
-/

namespace ChainLab.Text

/-! ## Strings -/

def containsChars (needle : List Char) : List Char → Bool
  | [] => needle.isEmpty
  | c :: cs => needle.isPrefixOf (c :: cs) || containsChars needle cs

def contains (s needle : String) : Bool := containsChars needle.toList s.toList

def hasPrefix (s start : String) : Bool := start.toList.isPrefixOf s.toList

def trimPrefix (s start : String) : String :=
  if hasPrefix s start then String.ofList (s.toList.drop start.toList.length) else s

/-- `unicode.IsSpace`. -/
def isSpace (c : Char) : Bool :=
  (9 ≤ c.toNat && c.toNat ≤ 13) || (0x2000 ≤ c.toNat && c.toNat ≤ 0x200a) ||
    [0x20, 0x85, 0xa0, 0x1680, 0x2028, 0x2029, 0x202f, 0x205f, 0x3000].contains c.toNat

def trimSpace (s : String) : String :=
  String.ofList ((s.toList.dropWhile isSpace).reverse.dropWhile isSpace).reverse

lemma trimSpace_ne_of_head {s : String} {c : Char} {cs : List Char} (h : s.toList = c :: cs)
    (hc : isSpace c = false) : trimSpace s ≠ "" := by
  intro htrim
  have hlist := congrArg String.toList htrim
  simp only [trimSpace, String.toList_ofList, String.toList_empty, List.reverse_eq_nil_iff] at hlist
  rw [List.dropWhile_eq_nil_iff] at hlist
  have hall := hlist c (by simp [h, hc])
  rw [hc] at hall
  cases hall

/-! ## Machine integers -/

def maxInt64 : Int := 2 ^ 63 - 1

def maxUint64 : Nat := 2 ^ 64 - 1

/-- The value of an `int64` expression. -/
def wrap (n : Int) : Int := n.bmod (2 ^ 64)

lemma wrap_of_range {n : Int} (hlo : -maxInt64 - 1 ≤ n) (hhi : n ≤ maxInt64) : wrap n = n := by
  unfold maxInt64 at hlo hhi
  exact Int.bmod_eq_of_le_mul_two (by omega) (by omega)

/-! ## Numbers -/

inductive Parsed (α : Type) where
  | value (n : α)
  | syntaxError
  | rangeError (nearest : α)
deriving DecidableEq, Repr

def Parsed.number {α : Type} (zero : α) : Parsed α → α
  | .value n => n
  | .syntaxError => zero
  | .rangeError nearest => nearest

def parseDigits : List Char → Nat → Parsed Nat
  | [], n => .value n
  | c :: cs, n =>
    if c.isDigit then
      if n * 10 + (c.toNat - '0'.toNat) ≤ maxUint64 then
        parseDigits cs (n * 10 + (c.toNat - '0'.toNat))
      else .rangeError maxUint64
    else .syntaxError

/-- `strconv.ParseUint` in base 10 and 64 bits. -/
def parseUint (s : String) : Parsed Nat :=
  if s.toList = [] then .syntaxError else parseDigits s.toList 0

/-- A magnitude with its sign. -/
def signed (negative : Bool) : Parsed Nat → Parsed Int
  | .syntaxError => .syntaxError
  | .value n | .rangeError n =>
    if negative then
      if (n : Int) ≤ maxInt64 + 1 then .value (-n) else .rangeError (-maxInt64 - 1)
    else
      if (n : Int) ≤ maxInt64 then .value n else .rangeError maxInt64

/-- `strconv.ParseInt` in base 10 and 64 bits. -/
def parseInt (s : String) : Parsed Int :=
  match s.toList with
  | '-' :: cs => signed true (parseUint (String.ofList cs))
  | '+' :: cs => signed false (parseUint (String.ofList cs))
  | _ => signed false (parseUint s)

example : parseInt "-12" = .value (-12) := by decide
example : (parseInt "9223372036854775808").number 0 = maxInt64 := by decide

/-- `strconv.FormatInt` and `strconv.FormatUint` in base 10. -/
def formatInt (n : Int) : String := toString n

def formatUint (n : Nat) : String := toString n

/-! ## Numbers of a fixed width -/

def paddedDigits : Nat → Nat → List Char
  | 0, _ => []
  | width + 1, n => paddedDigits width (n / 10) ++ [Nat.digitChar (n % 10)]

/-- The verb `%0<width>d` for a number of at most `width` digits. -/
def paddedUint (width n : Nat) : String :=
  String.ofList (paddedDigits width n)

def paddedInt (width : Nat) (n : Int) : String :=
  if n < 0 then "-" ++ paddedUint (width - 1) n.natAbs else paddedUint width n.natAbs

example : paddedInt 5 (-12) = "-0012" := by decide

lemma length_paddedDigits (width n : Nat) : (paddedDigits width n).length = width := by
  induction width generalizing n with
  | zero => rfl
  | succ width ih => simp [paddedDigits, ih]

lemma digitChar_lt {a b : Nat} (hab : a < b) (hb : b < 10) : Nat.digitChar a < Nat.digitChar b := by
  have hdigits : ∀ b a : Fin 10, a < b → Nat.digitChar a < Nat.digitChar b := by decide
  exact hdigits ⟨b, hb⟩ ⟨a, hab.trans hb⟩ hab

lemma lex_append {a b : List Char} (h : List.Lex (· < ·) a b) (hlen : a.length = b.length)
    (x y : List Char) : List.Lex (· < ·) (a ++ x) (b ++ y) := by
  induction h with
  | nil => simp at hlen
  | rel hlt => exact List.Lex.rel hlt
  | cons _ ih => exact List.Lex.cons (ih (by simpa using hlen))

lemma paddedDigits_lex {width a b : Nat} (hab : a < b) (hb : b < 10 ^ width) :
    List.Lex (· < ·) (paddedDigits width a) (paddedDigits width b) := by
  induction width generalizing a b with
  | zero =>
    rw [Nat.pow_zero] at hb
    omega
  | succ width ih =>
    rw [Nat.pow_succ] at hb
    rw [paddedDigits, paddedDigits]
    rcases Nat.lt_or_ge (a / 10) (b / 10) with hlt | hge
    · apply lex_append (ih hlt (by omega))
      rw [length_paddedDigits, length_paddedDigits]
    · have heq : a / 10 = b / 10 := by omega
      rw [heq]
      exact List.Lex.append_left _ (List.Lex.rel (digitChar_lt (by omega) (by omega))) _

lemma paddedUint_lt (start rest rest' : String) {width a b : Nat} (hab : a < b)
    (hb : b < 10 ^ width) :
    start ++ (paddedUint width a ++ rest) < start ++ (paddedUint width b ++ rest') := by
  rw [String.lt_iff_toList_lt]
  simp only [String.toList_append, paddedUint, String.toList_ofList]
  apply List.Lex.append_left
  apply lex_append (paddedDigits_lex hab hb)
  rw [length_paddedDigits, length_paddedDigits]

end ChainLab.Text
