import ChainLab.Block.Model

/-!
# A collision-free digest

Consensus results assume that `block.Hash` never collides.  `plainDigest` writes the core of a block
out in full, each field self-delimiting, so it is a digest for which the assumption holds: results
that assume an injective digest are not vacuous.
-/

namespace ChainLab

namespace Digest

variable {α β : Type}

def SelfDelimiting (code : α → List Char) : Prop :=
  ∀ a b rest rest', code a ++ rest = code b ++ rest' → a = b ∧ rest = rest'

def encodeList (code : α → List Char) : List α → List Char
  | [] => ['.']
  | a :: as => ',' :: (code a ++ encodeList code as)

def encodeString (s : String) : List Char :=
  encodeList (fun c => [c]) s.toList

def encodeNat (n : Nat) : List Char :=
  encodeList (fun _ : Unit => []) (List.replicate n ())

def encodeInt (i : Int) : List Char :=
  encodeNat i.toNat ++ encodeNat (-i).toNat

lemma selfDelimiting_list {code : α → List Char} (h : SelfDelimiting code) :
    SelfDelimiting (encodeList code) := by
  intro as
  induction as with
  | nil =>
    intro bs rest rest' heq
    cases bs with
    | nil => simpa [encodeList] using heq
    | cons b bs => simp [encodeList] at heq
  | cons a as ih =>
    intro bs rest rest' heq
    cases bs with
    | nil => simp [encodeList] at heq
    | cons b bs =>
      have htail :
          code a ++ (encodeList code as ++ rest) = code b ++ (encodeList code bs ++ rest') := by
        simpa [encodeList] using heq
      obtain ⟨hab, hrest⟩ := h _ _ _ _ htail
      obtain ⟨has, hr⟩ := ih bs rest rest' hrest
      exact ⟨by rw [hab, has], hr⟩

lemma selfDelimiting_append {f : α → List Char} {g : β → List Char} (hf : SelfDelimiting f)
    (hg : SelfDelimiting g) : SelfDelimiting fun p : α × β => f p.1 ++ g p.2 := by
  rintro ⟨a, b⟩ ⟨a', b'⟩ rest rest' heq
  simp only [List.append_assoc] at heq
  obtain ⟨ha, hrest⟩ := hf _ _ _ _ heq
  obtain ⟨hb, hr⟩ := hg _ _ _ _ hrest
  exact ⟨by rw [ha, hb], hr⟩

lemma SelfDelimiting.comp {code : β → List Char} (h : SelfDelimiting code) {view : α → β}
    (hview : Function.Injective view) : SelfDelimiting fun a => code (view a) := by
  intro a b rest rest' heq
  obtain ⟨hab, hr⟩ := h _ _ _ _ heq
  exact ⟨hview hab, hr⟩

lemma selfDelimiting_string : SelfDelimiting encodeString := by
  have hchar : SelfDelimiting fun c : Char => [c] := by
    intro a b rest rest' heq
    simpa using heq
  exact (selfDelimiting_list hchar).comp fun _ _ h => String.toList_injective h

lemma selfDelimiting_nat : SelfDelimiting encodeNat := by
  intro m n rest rest' heq
  have hreplicate : ∀ m n (rest rest' : List Char),
      encodeNat m ++ rest = encodeNat n ++ rest' → m = n ∧ rest = rest' := by
    intro m
    induction m with
    | zero =>
      intro n rest rest' heq
      cases n with
      | zero => simpa [encodeNat, encodeList] using heq
      | succ n => simp [encodeNat, encodeList, List.replicate_succ] at heq
    | succ m ih =>
      intro n rest rest' heq
      cases n with
      | zero => simp [encodeNat, encodeList, List.replicate_succ] at heq
      | succ n =>
        have := ih n rest rest' (by
          simpa [encodeNat, encodeList, List.replicate_succ] using heq)
        exact ⟨by rw [this.1], this.2⟩
  exact hreplicate m n rest rest' heq

lemma selfDelimiting_int : SelfDelimiting encodeInt := by
  have hview : Function.Injective fun i : Int => (i.toNat, (-i).toNat) := by
    intro i j h
    simp only [Prod.mk.injEq] at h
    omega
  exact (selfDelimiting_append selfDelimiting_nat selfDelimiting_nat).comp hview

end Digest

open Digest in
/-- The core of a block, written out field by field. -/
def plainDigest (c : BlockCore) : String :=
  String.ofList <|
    encodeNat c.height ++ (encodeInt c.timestamp ++ (encodeList encodeString c.txIDs ++
      encodeList encodeString [c.shardID, c.previousHash, c.proposerID, c.txRoot,
        c.stateRootBefore, c.stateRootAfter, c.receiptRoot, c.extension]))

open Digest in
lemma plainDigest_injective : Function.Injective plainDigest := by
  have hcode := selfDelimiting_append selfDelimiting_nat (selfDelimiting_append selfDelimiting_int
    (selfDelimiting_append (selfDelimiting_list selfDelimiting_string)
      (selfDelimiting_list selfDelimiting_string)))
  intro c d h
  obtain ⟨heq, -⟩ := hcode
    (c.height, c.timestamp, c.txIDs, [c.shardID, c.previousHash, c.proposerID, c.txRoot,
      c.stateRootBefore, c.stateRootAfter, c.receiptRoot, c.extension])
    (d.height, d.timestamp, d.txIDs, [d.shardID, d.previousHash, d.proposerID, d.txRoot,
      d.stateRootBefore, d.stateRootAfter, d.receiptRoot, d.extension])
    [] [] (by simpa [plainDigest] using congrArg String.toList h)
  cases c
  cases d
  simp_all

def plainBlock (height : Nat) (proposerID : String) : Block :=
  Block.assignHash plainDigest
    { height := height, previousHash := "genesis", proposerID := proposerID }

end ChainLab
