import ChainLab.Data.Journal

/-!
# Raw messages in JSON text

`json.Marshal` does not copy a `json.RawMessage`.  It refuses what is not JSON, takes out the white
space between tokens and writes `<`, `>`, `&` and the separators U+2028 and U+2029 as escape
sequences.  The grammar of JSON is a parameter; in a text that belongs to it the escaped characters
stand in strings and the white space outside of them, so it does not matter which of the two is done
first.
-/

namespace ChainLab.RawJson

/-- Where a scanner is: between tokens, in a string, or behind a backslash in a string. -/
inductive Position where
  | token
  | string
  | escaped
deriving DecidableEq, Repr

def Position.next : Position → UInt8 → Position
  | .token, c => if c = 34 then .string else .token
  | .string, c => if c = 34 then .token else if c = 92 then .escaped else .string
  | .escaped, _ => .string

def isSpace (c : UInt8) : Prop :=
  c = 32 ∨ c = 9 ∨ c = 10 ∨ c = 13

instance (c : UInt8) : Decidable (isSpace c) :=
  inferInstanceAs (Decidable (_ ∨ _))

/-- `json.Compact`, from a position on. -/
def compact : Position → Bytes → Bytes
  | _, [] => []
  | position, c :: text =>
    if position = .token ∧ isSpace c then compact position text
    else c :: compact (position.next c) text

/-- The digits of `<`, `>` and `&`. -/
def escapeOf (c : UInt8) : Option Bytes :=
  if c = 60 then some [92, 117, 48, 48, 51, 99]
  else if c = 62 then some [92, 117, 48, 48, 51, 101]
  else if c = 38 then some [92, 117, 48, 48, 50, 54]
  else none

/-- `json.HTMLEscape`. -/
def htmlEscape : Bytes → Bytes
  | [] => []
  | c :: d :: e :: text =>
    if c = 0xE2 ∧ d = 0x80 ∧ (e = 0xA8 ∨ e = 0xA9) then
      [92, 117, 50, 48, 50, if e = 0xA8 then 56 else 57] ++ htmlEscape text
    else (escapeOf c).getD [c] ++ htmlEscape (d :: e :: text)
  | c :: text => (escapeOf c).getD [c] ++ htmlEscape text

/-- What `json.Marshal` writes for a raw message. -/
def marshal (valid : Bytes → Bool) (text : Bytes) : Option Bytes :=
  if valid text then some (compact .token (htmlEscape text)) else none

/-- Neither white space nor a quote, nor a character that is escaped. -/
def isPlain (c : UInt8) : Prop :=
  ¬ isSpace c ∧ c ≠ 34 ∧ c ≠ 0xE2 ∧ escapeOf c = none

instance (c : UInt8) : Decidable (isPlain c) :=
  inferInstanceAs (Decidable (_ ∧ _))

lemma htmlEscape_of_plain {text : Bytes} (h : ∀ c ∈ text, isPlain c) : htmlEscape text = text := by
  fun_induction htmlEscape text with
  | case1 => rfl
  | case2 c d e text hseparator => exact absurd hseparator.1 (h c List.mem_cons_self).2.2.1
  | case3 c d e text _ ih | case4 c text _ ih =>
    rw [(h c List.mem_cons_self).2.2.2, ih fun x hx => h x (List.mem_cons_of_mem _ hx)]
    rfl

lemma compact_of_plain {text : Bytes} (h : ∀ c ∈ text, isPlain c) : compact .token text = text := by
  induction text with
  | nil => rfl
  | cons c text ih =>
    obtain ⟨hspace, hquote, -⟩ := h c List.mem_cons_self
    have hnext : Position.next .token c = .token := if_neg hquote
    rw [compact, if_neg (fun hc => hspace hc.2), hnext,
      ih fun x hx => h x (List.mem_cons_of_mem _ hx)]

lemma marshal_of_plain {valid : Bytes → Bool} {text : Bytes} (hvalid : valid text = true)
    (h : ∀ c ∈ text, isPlain c) : marshal valid text = some text := by
  rw [marshal, if_pos hvalid, htmlEscape_of_plain h, compact_of_plain h]

-- `{"a": "< "}`
example : compact .token (htmlEscape [123, 34, 97, 34, 58, 32, 34, 60, 32, 34, 125]) =
    [123, 34, 97, 34, 58, 34, 92, 117, 48, 48, 51, 99, 32, 34, 125] := by decide

end ChainLab.RawJson
