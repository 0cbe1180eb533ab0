import ChainLab.Block.Digest
import ChainLab.Proposal.Transaction

/-!
# Plain primitives

Results on proposals assume that digests do not collide and that the text of a JSON value determines
it.  Here both are written out in full, each part self-delimiting, so that the assumptions hold and
the results are not vacuous.
-/

namespace ChainLab

open Digest

/-! ## The text of JSON values -/

namespace Json

mutual

def plain : Json → List Char
  | .null => ['n']
  | .bool value => if value then ['t'] else ['f']
  | .num value => 'i' :: encodeInt value
  | .str value => 's' :: encodeString value
  | .arr items => 'a' :: plainItems items
  | .obj members => 'o' :: plainMembers members

def plainItems : List Json → List Char
  | [] => ['.']
  | item :: items => ',' :: (plain item ++ plainItems items)

def plainMembers : List (String × Json) → List Char
  | [] => ['.']
  | (name, value) :: members => ',' :: (encodeString name ++ (plain value ++ plainMembers members))

end

-- The first letter tells the kind of a value, so only values of the same kind can agree.
mutual

lemma plain_tells : ∀ (a b : Json) (rest rest' : List Char),
    plain a ++ rest = plain b ++ rest' → a = b ∧ rest = rest'
  | .null, b, rest, rest', h => by
    cases b with
    | null => simpa [plain] using h
    | bool value => cases value <;> simp [plain] at h
    | num | str | arr | obj => simp [plain] at h
  | .bool value, b, rest, rest', h => by
    cases b with
    | bool value' =>
      cases value <;> cases value' <;> simp [plain] at h <;> exact ⟨rfl, h⟩
    | null | num | str | arr | obj => cases value <;> simp [plain] at h
  | .num value, b, rest, rest', h => by
    cases b with
    | num value' =>
      have htail : encodeInt value ++ rest = encodeInt value' ++ rest' := by
        simpa [plain] using h
      obtain ⟨rfl, hrest⟩ := selfDelimiting_int _ _ _ _ htail
      exact ⟨rfl, hrest⟩
    | bool value => cases value <;> simp [plain] at h
    | null | str | arr | obj => simp [plain] at h
  | .str value, b, rest, rest', h => by
    cases b with
    | str value' =>
      have htail : encodeString value ++ rest = encodeString value' ++ rest' := by
        simpa [plain] using h
      obtain ⟨rfl, hrest⟩ := selfDelimiting_string _ _ _ _ htail
      exact ⟨rfl, hrest⟩
    | bool value => cases value <;> simp [plain] at h
    | null | num | arr | obj => simp [plain] at h
  | .arr items, b, rest, rest', h => by
    cases b with
    | arr items' =>
      obtain ⟨rfl, hrest⟩ := plainItems_tells items items' rest rest' (by simpa [plain] using h)
      exact ⟨rfl, hrest⟩
    | bool value => cases value <;> simp [plain] at h
    | null | num | str | obj => simp [plain] at h
  | .obj members, b, rest, rest', h => by
    cases b with
    | obj members' =>
      obtain ⟨rfl, hrest⟩ :=
        plainMembers_tells members members' rest rest' (by simpa [plain] using h)
      exact ⟨rfl, hrest⟩
    | bool value => cases value <;> simp [plain] at h
    | null | num | str | arr => simp [plain] at h

lemma plainItems_tells : ∀ (items items' : List Json) (rest rest' : List Char),
    plainItems items ++ rest = plainItems items' ++ rest' → items = items' ∧ rest = rest'
  | [], items', rest, rest', h => by
    cases items' with
    | nil => simpa [plainItems] using h
    | cons => simp [plainItems] at h
  | item :: items, items', rest, rest', h => by
    cases items' with
    | nil => simp [plainItems] at h
    | cons item' items' =>
      obtain ⟨rfl, htail⟩ := plain_tells item item' (plainItems items ++ rest)
        (plainItems items' ++ rest') (by simpa [plainItems] using h)
      obtain ⟨rfl, hrest⟩ := plainItems_tells items items' rest rest' htail
      exact ⟨rfl, hrest⟩

lemma plainMembers_tells : ∀ (members members' : List (String × Json)) (rest rest' : List Char),
    plainMembers members ++ rest = plainMembers members' ++ rest' → members = members' ∧
      rest = rest'
  | [], members', rest, rest', h => by
    cases members' with
    | nil => simpa [plainMembers] using h
    | cons => simp [plainMembers] at h
  | (name, value) :: members, members', rest, rest', h => by
    cases members' with
    | nil => simp [plainMembers] at h
    | cons member members' =>
      obtain ⟨name', value'⟩ := member
      obtain ⟨rfl, htail⟩ := selfDelimiting_string name name'
        (plain value ++ (plainMembers members ++ rest))
        (plain value' ++ (plainMembers members' ++ rest')) (by simpa [plainMembers] using h)
      obtain ⟨rfl, hmemb⟩ := plain_tells value value' _ _ htail
      obtain ⟨rfl, hrest⟩ := plainMembers_tells members members' rest rest' hmemb
      exact ⟨rfl, hrest⟩

end

lemma plain_injective : Function.Injective plain := by
  intro a b h
  exact (plain_tells a b [] [] (congrArg (· ++ []) h)).1

end Json

/-! ## Primitives -/

namespace Proposal

/-- A digest is written with letters that are no spaces, and it is not empty. -/
structure Primitives.Hexadecimal (p : Primitives) : Prop where
  nonempty : ∀ text, p.sha256 text ≠ ""
  letters : ∀ text, ∀ c ∈ (p.sha256 text).toList, Text.isSpace c = false

lemma Primitives.Hexadecimal.trimSpace_sha256 {p : Primitives} (h : p.Hexadecimal)
    (text : String) : Text.trimSpace (p.sha256 text) = p.sha256 text := by
  have hdrop : ∀ l : List Char, (∀ c ∈ l, Text.isSpace c = false) →
      l.dropWhile Text.isSpace = l := by
    intro l hl
    cases l with
    | nil => rfl
    | cons c l => simp [List.dropWhile, hl c List.mem_cons_self]
  have hletters := h.letters text
  rw [Text.trimSpace, hdrop _ hletters, hdrop _ (fun c hc => hletters c (List.mem_reverse.1 hc)),
    List.reverse_reverse, String.ofList_toList]

lemma Primitives.Hexadecimal.blank_sha256 {p : Primitives} (h : p.Hexadecimal) (text : String) :
    blank (p.sha256 text) = false := by
  rw [blank, h.trimSpace_sha256]
  exact decide_eq_false (h.nonempty text)

def plainSHA256 (text : String) : String :=
  String.ofList (encodeList (fun c : Char => encodeNat c.toNat) text.toList)

def plainPrimitives : Primitives where
  sha256 := plainSHA256
  json value := String.ofList value.plain
  base64 text := some (if text = "key" then List.replicate 32 0 else List.replicate 64 0)
  address _ := "0x0"
  ed25519 _ _ _ := true

lemma plainPrimitives_collisionFree : plainPrimitives.CollisionFree where
  sha256_inj := by
    have hcode : SelfDelimiting fun c : Char => encodeNat c.toNat :=
      selfDelimiting_nat.comp fun _ _ h => Char.toNat_inj.1 h
    intro a b h
    have hlist := String.ofList_injective h
    obtain ⟨heq, -⟩ := selfDelimiting_list hcode a.toList b.toList [] [] (congrArg (· ++ []) hlist)
    exact String.toList_injective heq
  json_inj := by
    intro a b h
    exact Json.plain_injective (String.ofList_injective h)

lemma mem_encodeNat {n : Nat} {c : Char} (h : c ∈ encodeNat n) : c = ',' ∨ c = '.' := by
  unfold encodeNat at h
  generalize List.replicate n () = units at h
  induction units with
  | nil => exact .inr (by simpa [encodeList] using h)
  | cons _ units ih =>
    rcases List.mem_cons.1 h with rfl | h
    · exact .inl rfl
    · exact ih h

lemma plainPrimitives_hexadecimal : plainPrimitives.Hexadecimal where
  nonempty text h := by
    have hnil := congrArg String.toList h
    cases hlist : text.toList <;> simp [plainPrimitives, plainSHA256, encodeList, hlist] at hnil
  letters text := by
    intro c hc
    have hchars : c = ',' ∨ c = '.' := by
      simp only [plainPrimitives, plainSHA256, String.toList_ofList] at hc
      generalize text.toList = letters at hc
      induction letters with
      | nil => exact .inr (by simpa [encodeList] using hc)
      | cons letter letters ih =>
        rcases List.mem_cons.1 hc with rfl | hc
        · exact .inl rfl
        rcases List.mem_append.1 hc with hc | hc
        · exact mem_encodeNat hc
        · exact ih hc
    rcases hchars with rfl | rfl <;> decide

end Proposal
end ChainLab
