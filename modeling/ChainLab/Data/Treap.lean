import Mathlib

/-!
# Treaps

Binary search trees by key that are heaps by a rank of the key.  Insertion puts a new key at a leaf
and rotates it up past the keys of higher rank.

* `ordered_insert`, `heaped_insert`, `find_insert`: insertion keeps the two orders and updates the
  map;
* `eq_of_find`: a map has one treap, so a treap does not remember in which order it was built.
-/

namespace ChainLab

inductive Treap (K V : Type) where
  | nil
  | node (left : Treap K V) (key : K) (value : V) (right : Treap K V)
deriving DecidableEq, Repr

namespace Treap

variable {K V R : Type}

def Has : Treap K V → K → Prop
  | nil, _ => False
  | node left key _ right, q => q = key ∨ left.Has q ∨ right.Has q

def depth : Treap K V → Nat
  | nil => 0
  | node left _ _ right => max left.depth right.depth + 1

def keys : Treap K V → List K
  | nil => []
  | node left key _ right => left.keys ++ key :: right.keys

def fold {D : Type} (empty : D) (join : D → K → V → D → D) : Treap K V → D
  | nil => empty
  | node left key value right => join (left.fold empty join) key value (right.fold empty join)

def rotateRight : Treap K V → Treap K V
  | node (node a x xv b) key value right => node a x xv (node b key value right)
  | t => t

def rotateLeft : Treap K V → Treap K V
  | node left key value (node b x xv c) => node (node left key value b) x xv c
  | t => t

lemma mem_keys {t : Treap K V} {q : K} : q ∈ t.keys ↔ t.Has q := by
  induction t with
  | nil => simp [keys, Has]
  | node left key value right ihl ihr =>
    simp only [keys, Has, List.mem_append, List.mem_cons, ihl, ihr]
    grind

lemma depth_le_length_keys (t : Treap K V) : t.depth ≤ t.keys.length := by
  induction t with
  | nil => exact Nat.le_refl 0
  | node left key value right ihl ihr =>
    simp only [depth, keys, List.length_append, List.length_cons]
    omega

section Order

variable [LinearOrder K]

def find : Treap K V → K → Option V
  | nil, _ => none
  | node left key value right, q =>
    if q = key then some value else if q < key then left.find q else right.find q

def Ordered : Treap K V → Prop
  | nil => True
  | node left key _ right =>
    (∀ q, left.Has q → q < key) ∧ (∀ q, right.Has q → key < q) ∧ left.Ordered ∧ right.Ordered

variable {b left right t : Treap K V} {key x : K} {value xv : V}

lemma Ordered.nodup_keys (h : t.Ordered) : t.keys.Nodup := by
  induction t with
  | nil => exact List.nodup_nil
  | node left key value right ihl ihr =>
    obtain ⟨hleft, hright, hleftO, hrightO⟩ := h
    have hnotin : key ∉ right.keys := fun hmem => lt_irrefl _ (hright key (mem_keys.1 hmem))
    refine List.nodup_append.2 ⟨ihl hleftO, List.nodup_cons.2 ⟨hnotin, ihr hrightO⟩, ?_⟩
    intro q hq q' hq'
    have hlt : q < key := hleft q (mem_keys.1 hq)
    rcases List.mem_cons.1 hq' with rfl | hq'
    · exact hlt.ne
    · exact (hlt.trans (hright q' (mem_keys.1 hq'))).ne

variable [LinearOrder R] (rank : K → R)

def Heaped : Treap K V → Prop
  | nil => True
  | node left key _ right =>
    (∀ q, left.Has q → rank key < rank q) ∧ (∀ q, right.Has q → rank key < rank q) ∧
      left.Heaped ∧ right.Heaped

/-- The root has a lower rank than `key`. -/
def outranks : Treap K V → K → Bool
  | nil, _ => false
  | node _ root _ _, key => rank root < rank key

def insert : Treap K V → K → V → Treap K V
  | nil, k, v => node nil k v nil
  | node left key value right, k, v =>
    if k = key then node left key v right
    else if k < key then
      let left := left.insert k v
      if left.outranks rank key then (node left key value right).rotateRight
      else node left key value right
    else
      let right := right.insert k v
      if right.outranks rank key then (node left key value right).rotateLeft
      else node left key value right

/-! ## Rotations -/

omit [LinearOrder K] in
lemma has_rotateRight (t : Treap K V) (q : K) : t.rotateRight.Has q ↔ t.Has q := by
  cases t with
  | nil => rfl
  | node left key value right =>
    cases left with
    | nil => rfl
    | node a x xv b =>
      simp only [rotateRight, Has]
      grind

omit [LinearOrder K] in
lemma has_rotateLeft (t : Treap K V) (q : K) : t.rotateLeft.Has q ↔ t.Has q := by
  cases t with
  | nil => rfl
  | node left key value right =>
    cases right with
    | nil => rfl
    | node b x xv c =>
      simp only [rotateLeft, Has]
      grind

lemma ordered_rotateRight (h : t.Ordered) : t.rotateRight.Ordered := by
  cases t with
  | nil => exact h
  | node left key value right =>
    cases left with
    | nil => exact h
    | node a x xv b =>
      obtain ⟨hleft, hright, ⟨ha, hb, haO, hbO⟩, hrightO⟩ := h
      have hx : x < key := hleft x (.inl rfl)
      refine ⟨ha, ?_, haO, ⟨?_, hright, hbO, hrightO⟩⟩
      · rintro q (rfl | hq | hq)
        · exact hx
        · exact hb q hq
        · exact hx.trans (hright q hq)
      · intro q hq
        exact hleft q (.inr (.inr hq))

lemma ordered_rotateLeft (h : t.Ordered) : t.rotateLeft.Ordered := by
  cases t with
  | nil => exact h
  | node left key value right =>
    cases right with
    | nil => exact h
    | node b x xv c =>
      obtain ⟨hleft, hright, hleftO, ⟨hb, hc, hbO, hcO⟩⟩ := h
      have hx : key < x := hright x (.inl rfl)
      refine ⟨?_, hc, ⟨hleft, ?_, hleftO, hbO⟩, hcO⟩
      · rintro q (rfl | hq | hq)
        · exact hx
        · exact (hleft q hq).trans hx
        · exact hb q hq
      · intro q hq
        exact hright q (.inr (.inl hq))

lemma find_rotateRight (h : t.Ordered) (q : K) : t.rotateRight.find q = t.find q := by
  cases t with
  | nil => rfl
  | node left key value right =>
    cases left with
    | nil => rfl
    | node a x xv b =>
      have hx : x < key := h.1 x (.inl rfl)
      simp only [rotateRight, find]
      by_cases hqx : q = x
      · subst hqx
        simp [hx, hx.ne]
      by_cases hqlt : q < x
      · simp [hqx, hqlt, (hqlt.trans hx).ne, hqlt.trans hx]
      by_cases hqk : q = key
      · simp [hqx, hqlt]
      · simp [hqx, hqlt, hqk]

lemma find_rotateLeft (h : t.Ordered) (q : K) : t.rotateLeft.find q = t.find q := by
  cases t with
  | nil => rfl
  | node left key value right =>
    cases right with
    | nil => rfl
    | node b x xv c =>
      have hx : key < x := h.2.1 x (.inl rfl)
      simp only [rotateLeft, find]
      by_cases hqx : q = x
      · subst hqx
        simp [hx.ne', hx.not_gt]
      · by_cases hqlt : q < x
        · simp [hqx, hqlt]
        · have hkq : key < q := hx.trans (lt_of_le_of_ne (not_lt.1 hqlt) (Ne.symm hqx))
          simp [hqx, hqlt, hkq.ne', hkq.not_gt]

/-! ## Insertion -/

variable {rank}

lemma has_insert (t : Treap K V) (k : K) (v : V) (q : K) : (t.insert rank k v).Has q ↔ q = k ∨
    t.Has q := by
  induction t with
  | nil => simp [insert, Has]
  | node left key value right ihl ihr =>
    unfold insert
    split
    · next hk =>
      simp only [Has]
      grind
    · split
      · simp only
        split
        · rw [has_rotateRight]
          simp only [Has, ihl]
          grind
        · simp only [Has, ihl]
          grind
      · simp only
        split
        · rw [has_rotateLeft]
          simp only [Has, ihr]
          grind
        · simp only [Has, ihr]
          grind

section Sides

variable {left right : Treap K V} {key k : K} {value v : V}

lemma ordered_node_left (h : (node left key value right).Ordered) (hlt : k < key)
    (hins : (left.insert rank k v).Ordered) :
    (node (left.insert rank k v) key value right).Ordered := by
  refine ⟨?_, h.2.1, hins, h.2.2.2⟩
  intro q hq
  rcases (has_insert left k v q).1 hq with rfl | hq
  · exact hlt
  · exact h.1 q hq

lemma ordered_node_right (h : (node left key value right).Ordered) (hgt : key < k)
    (hins : (right.insert rank k v).Ordered) :
    (node left key value (right.insert rank k v)).Ordered := by
  refine ⟨h.1, ?_, h.2.2.1, hins⟩
  intro q hq
  rcases (has_insert right k v q).1 hq with rfl | hq
  · exact hgt
  · exact h.2.1 q hq

end Sides

lemma ordered_insert (h : t.Ordered) (k : K) (v : V) : (t.insert rank k v).Ordered := by
  induction t with
  | nil => simp [insert, Ordered, Has]
  | node left key value right ihl ihr =>
    unfold insert
    split
    · exact h
    next hne =>
    split
    · next hlt =>
      have hnode := ordered_node_left h hlt (ihl h.2.2.1)
      simp only
      split
      · exact ordered_rotateRight hnode
      · exact hnode
    · next hge =>
      have hgt : key < k := lt_of_le_of_ne (not_lt.1 hge) (Ne.symm hne)
      have hnode := ordered_node_right h hgt (ihr h.2.2.2)
      simp only
      split
      · exact ordered_rotateLeft hnode
      · exact hnode

lemma find_insert (h : t.Ordered) (k : K) (v : V) (q : K) :
    (t.insert rank k v).find q = if q = k then some v else t.find q := by
  induction t with
  | nil =>
    simp only [insert, find]
    split
    · rfl
    · simp
  | node left key value right ihl ihr =>
    unfold insert
    split
    · next hk =>
      subst hk
      simp only [find]
      split
      · rfl
      · rfl
    · next hne =>
      split
      · next hlt =>
        have hnode : (node (left.insert rank k v) key value right).find q =
            if q = k then some v else (node left key value right).find q := by
          simp only [find, ihl h.2.2.1]
          by_cases hq : q = k
          · subst hq
            simp [hne, hlt]
          · simp [hq]
        simp only
        split
        · rw [find_rotateRight (ordered_node_left h hlt (ordered_insert h.2.2.1 k v)), hnode]
        · exact hnode
      · next hge =>
        have hgt : key < k := lt_of_le_of_ne (not_lt.1 hge) (Ne.symm hne)
        have hnode : (node left key value (right.insert rank k v)).find q =
            if q = k then some v else (node left key value right).find q := by
          simp only [find, ihr h.2.2.2]
          by_cases hq : q = k
          · subst hq
            simp [hne, hge]
          · simp [hq]
        simp only
        split
        · rw [find_rotateLeft (ordered_node_right h hgt (ordered_insert h.2.2.2 k v)), hnode]
        · exact hnode

/-! ## Ranks -/

omit [LinearOrder K] in
/-- A rotation to the right puts the left child on top: it outranks the old root, and the old root
outranks what it gets below it. -/
lemma heaped_rotateRight {a : Treap K V} (hx : (node a x xv b).Heaped rank)
    (hright : right.Heaped rank) (hup : rank x < rank key) (hb : ∀ q, b.Has q → rank key < rank q)
    (hkey : ∀ q, right.Has q → rank key < rank q) :
    ((node (node a x xv b) key value right).rotateRight).Heaped rank := by
  refine ⟨hx.1, ?_, hx.2.2.1, ⟨hb, hkey, hx.2.2.2, hright⟩⟩
  rintro q (rfl | hq | hq)
  · exact hup
  · exact hx.2.1 q hq
  · exact hup.trans (hkey q hq)

omit [LinearOrder K] in
lemma heaped_rotateLeft {c : Treap K V} (hx : (node b x xv c).Heaped rank)
    (hleft : left.Heaped rank) (hup : rank x < rank key) (hb : ∀ q, b.Has q → rank key < rank q)
    (hkey : ∀ q, left.Has q → rank key < rank q) :
    ((node left key value (node b x xv c)).rotateLeft).Heaped rank := by
  refine ⟨?_, hx.2.1, ⟨hkey, hb, hleft, hx.2.2.1⟩, hx.2.2.2⟩
  rintro q (rfl | hq | hq)
  · exact hup
  · exact hup.trans (hkey q hq)
  · exact hx.1 q hq

/-- A root keeps what it outranks, up to the new key.  If the subtree after the insertion has
another root than the new key, that root was there before. -/
lemma outranked_insert {k : K} {v : V} (hrank : Function.Injective rank)
    (hbelow : ∀ q, t.Has q → rank key < rank q) (hne : k ≠ key)
    (hup : ¬ (t.insert rank k v).outranks rank key = true)
    (hheap : (t.insert rank k v).Heaped rank) :
    ∀ q, (t.insert rank k v).Has q → rank key < rank q := by
  intro q hq
  rcases (has_insert t k v q).1 hq with rfl | hold
  · -- the new key: the root is not lower than `key`, and the new key is not lower than the root
    cases hins : t.insert rank q v with
    | nil =>
      rw [hins] at hq
      exact hq.elim
    | node a x xv b =>
      rw [hins] at hq hup hheap
      have hkx : rank key ≤ rank x := by simpa [outranks] using hup
      have hxq : rank x ≤ rank q := by
        rcases hq with rfl | hq | hq
        · exact le_rfl
        · exact (hheap.1 q hq).le
        · exact (hheap.2.1 q hq).le
      exact lt_of_le_of_ne (hkx.trans hxq) fun heq => hne (hrank heq).symm
  · exact hbelow q hold

/-- When the root of the subtree outranks `key` after the insertion, it is the new key, and the rest
was there before. -/
lemma root_of_outranks {a : Treap K V} {k : K} {v : V} (hbelow : ∀ q, t.Has q → rank key < rank q)
    (hins : t.insert rank k v = node a x xv b) (hup : rank x < rank key)
    (hheap : (node a x xv b).Heaped rank) : ∀ q, a.Has q ∨ b.Has q → rank key < rank q := by
  have hx : x = k := by
    have hhas : (t.insert rank k v).Has x := by
      rw [hins]
      exact .inl rfl
    rcases (has_insert t k v x).1 hhas with hx | hold
    · exact hx
    · exact absurd (hbelow x hold) hup.not_gt
  subst hx
  intro q hq
  have hhas : (t.insert rank x v).Has q := by
    rw [hins]
    exact .inr hq
  have hlt : rank x < rank q := hq.elim (hheap.1 q) (hheap.2.1 q)
  rcases (has_insert t x v q).1 hhas with rfl | hold
  · exact absurd hlt (lt_irrefl _)
  · exact hbelow q hold

lemma heaped_insert (hrank : Function.Injective rank) (h : t.Heaped rank) (k : K) (v : V) :
    (t.insert rank k v).Heaped rank := by
  induction t with
  | nil => simp [insert, Heaped, Has]
  | node left key value right ihl ihr =>
    obtain ⟨hleft, hright, hleftH, hrightH⟩ := h
    have hl := ihl hleftH
    have hr := ihr hrightH
    unfold insert
    split
    · exact ⟨hleft, hright, hleftH, hrightH⟩
    next hne =>
    split
    · simp only
      split
      · next hup =>
        cases hins : left.insert rank k v with
        | nil => simp [hins, outranks] at hup
        | node a x xv b =>
          rw [hins] at hup hl
          have hxk : rank x < rank key := by simpa [outranks] using hup
          have hrest := root_of_outranks hleft hins hxk hl
          exact heaped_rotateRight hl hrightH hxk (fun q hq => hrest q (.inr hq)) hright
      · next hup =>
        exact ⟨outranked_insert hrank hleft hne hup hl, hright, hl, hrightH⟩
    · simp only
      split
      · next hup =>
        cases hins : right.insert rank k v with
        | nil => simp [hins, outranks] at hup
        | node b x xv c =>
          rw [hins] at hup hr
          have hxk : rank x < rank key := by simpa [outranks] using hup
          have hrest := root_of_outranks hright hins hxk hr
          exact heaped_rotateLeft hr hleftH hxk (fun q hq => hrest q (.inl hq)) hleft
      · next hup =>
        exact ⟨hleft, outranked_insert hrank hright hne hup hr, hleftH, hr⟩

/-! ## One treap for each map -/

lemma has_iff_find (h : t.Ordered) (q : K) : t.Has q ↔ (t.find q).isSome := by
  induction t with
  | nil => simp [Has, find]
  | node left key value right ihl ihr =>
    obtain ⟨hleft, hright, hleftO, hrightO⟩ := h
    simp only [Has, find, ihl hleftO, ihr hrightO]
    by_cases hq : q = key
    · simp [hq]
    by_cases hlt : q < key
    · have hnot : ¬ (right.find q).isSome = true := by
        rw [← ihr hrightO]
        intro hhas
        exact (hright q hhas).not_gt hlt
      simp [hq, hlt, hnot]
    · have hnot : ¬ (left.find q).isSome = true := by
        rw [← ihl hleftO]
        intro hhas
        exact hlt (hleft q hhas)
      simp [hq, hlt, hnot]

lemma find_eq_none_of_not_has (h : t.Ordered) {q : K} (hq : ¬ t.Has q) : t.find q = none := by
  rw [has_iff_find h] at hq
  simpa using hq

lemma find_left (h : (node left key value right).Ordered) (q : K) :
    left.find q = if q < key then (node left key value right).find q else none := by
  split
  · next hlt => simp [find, hlt, hlt.ne]
  · next hge => exact find_eq_none_of_not_has h.2.2.1 fun hhas => hge (h.1 q hhas)

lemma find_right (h : (node left key value right).Ordered) (q : K) :
    right.find q = if key < q then (node left key value right).find q else none := by
  split
  · next hgt => simp [find, hgt.ne', hgt.not_gt]
  · next hge => exact find_eq_none_of_not_has h.2.2.2 fun hhas => hge (h.2.1 q hhas)

omit [LinearOrder K] in
lemma rank_root_le {q : K} (h : (node left key value right).Heaped rank)
    (hq : (node left key value right).Has q) : rank key ≤ rank q := by
  rcases hq with rfl | hq | hq
  · exact le_rfl
  · exact (h.1 q hq).le
  · exact (h.2.1 q hq).le

lemma eq_of_find (hrank : Function.Injective rank) {t' : Treap K V} (hO : t.Ordered)
    (hH : t.Heaped rank) (hO' : t'.Ordered) (hH' : t'.Heaped rank)
    (hfind : ∀ q, t.find q = t'.find q) : t = t' := by
  induction t generalizing t' with
  | nil =>
    cases t' with
    | nil => rfl
    | node left key value right =>
      have hkey := hfind key
      simp [find] at hkey
  | node left key value right ihl ihr =>
    cases t' with
    | nil =>
      have hkey := hfind key
      simp [find] at hkey
    | node left' key' value' right' =>
      -- each root outranks the other, since both treaps have the same keys
      have hroot : (node left' key' value' right').Has key := by
        rw [has_iff_find hO', ← hfind]
        simp [find]
      have hroot' : (node left key value right).Has key' := by
        rw [has_iff_find hO, hfind]
        simp [find]
      have hkey : key = key' :=
        hrank (le_antisymm (rank_root_le hH hroot') (rank_root_le hH' hroot))
      subst hkey
      have hval : value = value' := by
        have hq := hfind key
        simpa [find] using hq
      subst hval
      have hl : left = left' := by
        apply ihl hO.2.2.1 hH.2.2.1 hO'.2.2.1 hH'.2.2.1
        intro q
        rw [find_left hO, find_left hO', hfind]
      have hr : right = right' := by
        apply ihr hO.2.2.2 hH.2.2.2 hO'.2.2.2 hH'.2.2.2
        intro q
        rw [find_right hO, find_right hO', hfind]
      rw [hl, hr]

end Order

end Treap
end ChainLab
