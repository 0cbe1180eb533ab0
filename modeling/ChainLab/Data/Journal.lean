import Mathlib.Data.List.Infix
import Mathlib.Data.List.TakeWhile
import ChainLab.Data.Code

/-!
# Files of lines

Append-only files with one record a line, and the two ways of reading them: a scanner with a limit
on the length of a line, which also returns what follows the last newline, and a reader that tells
terminated lines from that tail.
-/

namespace ChainLab

open List

abbrev Bytes := List UInt8

namespace Journal

def newline : UInt8 := 10

def carriageReturn : UInt8 := 13

/-! ## Lines -/

/-- The newline-terminated lines of a file, and what follows the last newline. -/
def split : Bytes → List Bytes × Bytes
  | [] => ([], [])
  | b :: rest =>
    if b = newline then ([] :: (split rest).1, (split rest).2)
    else
      match (split rest).1 with
      | [] => ([], b :: (split rest).2)
      | line :: lines => ((b :: line) :: lines, (split rest).2)

def unlines (lines : List Bytes) : Bytes :=
  lines.flatMap fun line => line ++ [newline]

lemma unlines_cons (line : Bytes) (lines : List Bytes) :
    unlines (line :: lines) = line ++ newline :: unlines lines := by
  simp [unlines]

lemma split_of_not_mem {tail : Bytes} (h : newline ∉ tail) : split tail = ([], tail) := by
  induction tail with
  | nil => rfl
  | cons b tail ih =>
    obtain ⟨hb, htail⟩ := not_or.1 (mt mem_cons.2 h)
    simp [split, Ne.symm hb, ih htail]

lemma split_line {line : Bytes} (h : newline ∉ line) (rest : Bytes) :
    split (line ++ newline :: rest) = (line :: (split rest).1, (split rest).2) := by
  induction line with
  | nil => simp [split]
  | cons b line ih =>
    obtain ⟨hb, hline⟩ := not_or.1 (mt mem_cons.2 h)
    simp [split, Ne.symm hb, ih hline]

lemma split_unlines_append {lines : List Bytes} (h : ∀ line ∈ lines, newline ∉ line)
    (rest : Bytes) : split (unlines lines ++ rest) = (lines ++ (split rest).1, (split rest).2) := by
  induction lines with
  | nil => rfl
  | cons line lines ih =>
    have htail := ih fun l hl => h l (mem_cons_of_mem _ hl)
    rw [unlines_cons, append_assoc, cons_append, split_line (h line mem_cons_self), htail]
    rfl

/-! ## Scanning -/

def dropCR (line : Bytes) : Bytes :=
  if line.getLast? = some carriageReturn then line.dropLast else line

lemma dropCR_of_not_mem {line : Bytes} (h : carriageReturn ∉ line) : dropCR line = line := by
  unfold dropCR
  split
  · next hlast => exact absurd (mem_of_getLast? hlast) h
  · rfl

def rows (data : Bytes) : List Bytes :=
  if (split data).2 = [] then (split data).1 else (split data).1 ++ [(split data).2]

/-- `bufio.Scanner` with a maximal token size: the lines it returns, and whether it stopped at one
that does not fit into its buffer. -/
def scan (limit : Nat) (data : Bytes) : List Bytes × Bool :=
  (((rows data).takeWhile fun line => line.length < limit).map dropCR,
    (rows data).any fun line => limit ≤ line.length)

variable {limit : Nat}

lemma scan_of_short {data : Bytes} (h : ∀ line ∈ rows data, line.length < limit) :
    scan limit data = ((rows data).map dropCR, false) := by
  have htake : (rows data).takeWhile (fun line => decide (line.length < limit)) = rows data :=
    takeWhile_eq_self_iff.2 fun line hline => decide_eq_true (h line hline)
  have hany : ((rows data).any fun line => decide (limit ≤ line.length)) = false :=
    any_eq_false.2 fun line hline => by simpa using h line hline
  unfold scan
  rw [htake, hany]

/-! ## Records -/

/-- Records written as lines. -/
structure LineFormat (α : Type) where
  encode : α → Bytes
  newline_not_mem : ∀ a, newline ∉ encode a
  carriageReturn_not_mem : ∀ a, carriageReturn ∉ encode a

/-- Lines that are read back as they were written, and of which no strict prefix is read. -/
structure LineCodec (α : Type) extends LineFormat α where
  decode : Bytes → Option α
  decode_encode : ∀ a, decode (encode a) = some a
  encode_ne_nil : ∀ a, encode a ≠ []
  decode_strict : ∀ a p, p <+: encode a → p ≠ encode a → decode p = none

namespace LineFormat

variable {α : Type} (c : LineFormat α)

def line (a : α) : Bytes :=
  c.encode a ++ [newline]

def file (l : List α) : Bytes :=
  unlines (l.map c.encode)

lemma file_append (l l' : List α) : c.file (l ++ l') = c.file l ++ c.file l' := by
  simp [file, unlines]

variable {l : List α}

lemma file_eq_nil : c.file l = [] ↔ l = [] := by
  cases l with
  | nil => simp [file, unlines]
  | cons a l => simp [file, unlines_cons]

lemma file_singleton (a : α) : c.file [a] = c.line a := by
  simp [file, line, unlines]

variable {c}

lemma not_mem_encode {b : Bytes} (h : b ∈ l.map c.encode) : newline ∉ b ∧ carriageReturn ∉ b := by
  obtain ⟨a, -, rfl⟩ := mem_map.1 h
  exact ⟨c.newline_not_mem a, c.carriageReturn_not_mem a⟩

variable {p : Bytes}

lemma not_mem_of_initial {a : α} (h : p <+: c.encode a) : newline ∉ p ∧ carriageReturn ∉ p :=
  ⟨fun hmem => c.newline_not_mem a (h.subset hmem),
    fun hmem => c.carriageReturn_not_mem a (h.subset hmem)⟩

lemma cut_line (a : α) (n : Nat) : (c.line a).take n = c.line a ∨
    (c.line a).take n <+: c.encode a := by
  have hinit : (c.line a).take n <+: c.encode a ++ [newline] := take_prefix ..
  exact prefix_concat_iff.1 hinit

lemma split_file (l : List α) (hp : newline ∉ p) : split (c.file l ++ p) = (l.map c.encode, p) := by
  have hlines : ∀ line ∈ l.map c.encode, newline ∉ line := fun line hline =>
    (not_mem_encode hline).1
  rw [file, split_unlines_append hlines, split_of_not_mem hp, append_nil]

lemma rows_file (l : List α) : rows (c.file l) = l.map c.encode := by
  have hsplit := split_file (c := c) l (not_mem_nil (a := newline))
  rw [append_nil] at hsplit
  simp [rows, hsplit]

lemma map_dropCR_encode (l : List α) : (l.map c.encode).map dropCR = l.map c.encode := by
  rw [map_map]
  apply map_congr_left
  intro a _
  exact dropCR_of_not_mem (c.carriageReturn_not_mem a)

lemma scan_file (h : ∀ a ∈ l, (c.encode a).length < limit) :
    scan limit (c.file l) = (l.map c.encode, false) := by
  have hshort : ∀ line ∈ rows (c.file l), line.length < limit := by
    rw [rows_file]
    intro line hline
    obtain ⟨a, ha, rfl⟩ := mem_map.1 hline
    exact h a ha
  rw [scan_of_short hshort, rows_file, map_dropCR_encode]

lemma scan_file_append {a : α}
    (h : ∀ a ∈ l, (c.encode a).length < limit) (hp : p <+: c.encode a) (hne : p ≠ [])
    (hlen : p.length < limit) : scan limit (c.file l ++ p) = (l.map c.encode ++ [p], false) := by
  obtain ⟨hnewline, hreturn⟩ := not_mem_of_initial hp
  have hrows : rows (c.file l ++ p) = l.map c.encode ++ [p] := by
    simp [rows, split_file l hnewline, hne]
  have hshort : ∀ line ∈ rows (c.file l ++ p), line.length < limit := by
    rw [hrows]
    intro line hline
    rcases mem_append.1 hline with hline | hline
    · obtain ⟨a, ha, rfl⟩ := mem_map.1 hline
      exact h a ha
    · rw [mem_singleton.1 hline]
      exact hlen
  rw [scan_of_short hshort, hrows, map_append, map_dropCR_encode, map_singleton,
    dropCR_of_not_mem hreturn]

/-! ## Positions in a file -/

lemma file_cons (a : α) (l : List α) : c.file (a :: l) = c.line a ++ c.file l := by
  simp [file, line, unlines]

lemma length_line_pos (a : α) : 0 < (c.line a).length := by
  simp [line]

lemma length_file_le {l' : List α} (h : l <+: l') : (c.file l).length ≤ (c.file l').length := by
  obtain ⟨rest, rfl⟩ := h
  rw [file_append, length_append]
  exact Nat.le_add_right _ _

lemma prefix_of_length_file {p q : List α} (hp : p <+: l) (hq : q <+: l)
    (h : (c.file p).length ≤ (c.file q).length) : p <+: q := by
  rcases prefix_or_prefix_of_prefix hp hq with hpq | ⟨rest, rfl⟩
  · exact hpq
  cases rest with
  | nil => rw [append_nil]
  | cons a rest =>
    rw [file_append, file_cons, length_append, length_append] at h
    have hpos := length_line_pos (c := c) a
    omega

lemma eq_of_length_file {p q : List α} (hp : p <+: l) (hq : q <+: l)
    (h : (c.file p).length = (c.file q).length) : p = q :=
  (prefix_of_length_file hp hq h.le).eq_of_length_le (prefix_of_length_file hq hp h.ge).length_le

variable (c)

def cut : List α → Nat → List α × Bytes
  | [], _ => ([], [])
  | a :: l, n =>
    if (c.line a).length ≤ n then
      (a :: (cut l (n - (c.line a).length)).1, (cut l (n - (c.line a).length)).2)
    else ([], (c.line a).take n)

variable {c}

lemma file_take (l : List α) (n : Nat) :
    (c.file l).take n = c.file (c.cut l n).1 ++ (c.cut l n).2 := by
  induction l generalizing n with
  | nil => simp [cut, file, unlines]
  | cons a l ih =>
    unfold cut
    rw [file_cons]
    split
    · next hle =>
      rw [take_append, take_of_length_le hle, ih, file_cons, append_assoc]
    · next hlt =>
      rw [take_append_of_le_length (not_le.1 hlt).le]
      rfl

lemma cut_prefix (l : List α) (n : Nat) : (c.cut l n).1 <+: l := by
  induction l generalizing n with
  | nil => exact nil_prefix
  | cons a l ih =>
    unfold cut
    split
    · exact cons_prefix_cons.2 ⟨rfl, ih _⟩
    · exact nil_prefix

lemma newline_not_mem_cut (l : List α) (n : Nat) : newline ∉ (c.cut l n).2 := by
  induction l generalizing n with
  | nil => exact not_mem_nil
  | cons a l ih =>
    unfold cut
    split
    · exact ih _
    next hlt =>
    have hinit : (c.line a).take n <+: c.encode a := by
      apply (cut_line a n).resolve_left
      intro heq
      have hlen := congrArg List.length heq
      rw [length_take] at hlen
      omega
    exact (not_mem_of_initial hinit).1

lemma prefix_cut {p : List α} {n : Nat} (hp : p <+: l) (h : (c.file p).length ≤ n) :
    p <+: (c.cut l n).1 := by
  induction l generalizing p n with
  | nil => exact hp
  | cons a l ih =>
    cases p with
    | nil => exact nil_prefix
    | cons b p =>
      obtain ⟨rfl, htail⟩ := cons_prefix_cons.1 hp
      rw [file_cons, length_append] at h
      have hle : (c.line b).length ≤ n := by omega
      unfold cut
      rw [if_pos hle]
      exact cons_prefix_cons.2 ⟨rfl, ih htail (by omega)⟩

end LineFormat

/-! ## A codec from a code -/

section

variable {α : Type} (c : Code α)

def digit (b : Bool) : UInt8 := if b then 49 else 48

lemma digit_injective (b : Bool) : decide (digit b = 49) = b := by
  cases b <;> decide

def ofCodeEncode (a : α) : Bytes :=
  (c.put a).map digit ++ [125]

def ofCodeDecode (bytes : Bytes) : Option α :=
  if bytes.getLast? = some 125 then
    match c.take (bytes.dropLast.map fun b => decide (b = 49)) with
    | some (a, []) => some a
    | _ => none
  else none

lemma mem_ofCodeEncode {a : α} {b : UInt8} (h : b ∈ ofCodeEncode c a) : b = 48 ∨ b = 49 ∨
    b = 125 := by
  rcases mem_append.1 h with h | h
  · obtain ⟨bit, -, rfl⟩ := mem_map.1 h
    cases bit
    · exact .inl rfl
    · exact .inr (.inl rfl)
  · exact .inr (.inr (mem_singleton.1 h))

def LineCodec.ofCode : LineCodec α where
  encode := ofCodeEncode c
  decode := ofCodeDecode c
  decode_encode a := by
    have hbits : ((c.put a).map digit).map (fun b => decide (b = 49)) = c.put a := by
      rw [map_map]
      calc (c.put a).map ((fun b => decide (b = 49)) ∘ digit) = (c.put a).map id :=
            map_congr_left fun b _ => digit_injective b
        _ = c.put a := map_id _
    have htake := c.take_put a []
    rw [append_nil] at htake
    simp [ofCodeDecode, ofCodeEncode, hbits, htake]
  encode_ne_nil a := by simp [ofCodeEncode]
  newline_not_mem a h := by
    rcases mem_ofCodeEncode c h with h | h | h <;> exact absurd h (by decide)
  carriageReturn_not_mem a h := by
    rcases mem_ofCodeEncode c h with h | h | h <;> exact absurd h (by decide)
  decode_strict a p hp hne := by
    -- a strict prefix has digits only, so it does not end in the brace
    have hdigits : p <+: (c.put a).map digit := (prefix_concat_iff.1 hp).resolve_left hne
    have hlast : p.getLast? ≠ some 125 := by
      intro hlast
      obtain ⟨b, -, hb⟩ := mem_map.1 (hdigits.subset (mem_of_getLast? hlast))
      cases b <;> exact absurd hb (by decide)
    simp [ofCodeDecode, hlast]

end

end Journal
end ChainLab
