import ChainLab.Block.Digest
import ChainLab.Data.GoMap
import ChainLab.Data.Treap

/-!
# The state commitment

The Merkle treap of `state/root.go`.  A `Commitment` points to the root of a tree whose nodes are
shared with its clones; `Set` copies the nodes on its path and the rotations write to the copies
only.  Nodes live in a heap: an allocation appends, and an address is an index.  `none` stands for a
nil dereference or for running out of fuel; neither happens.
-/

namespace ChainLab.State

open List

/-- SHA-256, with hashes in hexadecimal: of a key for its priority, of the empty tree, of a node
from the hash of its left side, its key and value, and the hash of its right side, and of a text. -/
structure Sha where
  priority : (key : String) → List (Fin 256)
  priority_length : ∀ key, (priority key).length = 32
  empty : String
  node : (left key value right : String) → String
  text : String → String

structure CommitmentNode where
  key : String
  value : String
  priority : List (Fin 256)
  left : Option Nat
  right : Option Nat
  hash : String
deriving DecidableEq, Repr

abbrev Heap := List CommitmentNode

variable (sha : Sha)

/-! ## Operations on nodes -/

def hashAt (heap : Heap) : Option Nat → Option String
  | none => some sha.empty
  | some a => heap[a]?.map CommitmentNode.hash

def refreshCommitmentHash (heap : Heap) (a : Nat) : Option Heap := do
  let node ← heap[a]?
  let left ← hashAt sha heap node.left
  let right ← hashAt sha heap node.right
  return heap.set a { node with hash := sha.node left node.key node.value right }

/-- The copy of the node at `a`, at the next free address. -/
def cloneCommitmentNode (heap : Heap) (a : Nat) : Option (Heap × Nat) := do
  let node ← heap[a]?
  return (heap ++ [node], heap.length)

/-- The loop over the bytes of two priorities; `tie` is the answer when they are equal. -/
def priorityLess : List (Fin 256) → List (Fin 256) → Bool → Bool
  | l :: ls, r :: rs, tie =>
    if l < r then true else if r < l then false else priorityLess ls rs tie
  | _, _, tie => tie

def commitmentPriorityLess (heap : Heap) (left : Option Nat) (right : Nat) : Option Bool :=
  match left with
  | none => some false
  | some left => do
    let l ← heap[left]?
    let r ← heap[right]?
    return priorityLess l.priority r.priority (l.key < r.key)

def rotateCommitmentRight (heap : Heap) (root : Nat) : Option (Heap × Nat) := do
  let rootNode ← heap[root]?
  let left ← rootNode.left
  let (heap, next) ← cloneCommitmentNode heap left
  let nextNode ← heap[next]?
  let heap := heap.set root { rootNode with left := nextNode.right }
  let heap := heap.set next { nextNode with right := some root }
  let heap ← refreshCommitmentHash sha heap root
  let heap ← refreshCommitmentHash sha heap next
  return (heap, next)

def rotateCommitmentLeft (heap : Heap) (root : Nat) : Option (Heap × Nat) := do
  let rootNode ← heap[root]?
  let right ← rootNode.right
  let (heap, next) ← cloneCommitmentNode heap right
  let nextNode ← heap[next]?
  let heap := heap.set root { rootNode with right := nextNode.left }
  let heap := heap.set next { nextNode with left := some root }
  let heap ← refreshCommitmentHash sha heap root
  let heap ← refreshCommitmentHash sha heap next
  return (heap, next)

/-- The heap and the new root.  The fuel bounds the depth of the recursion. -/
def commitmentSet : Nat → Heap → Option Nat → String → String → Option (Heap × Nat)
  | 0, _, _, _, _ => none
  | _ + 1, heap, none, key, value => do
    let created := ⟨key, value, sha.priority key, none, none, ""⟩
    let heap' ← refreshCommitmentHash sha (heap ++ [created]) heap.length
    return (heap', heap.length)
  | fuel + 1, heap, some a, key, value => do
    let (heap, a) ← cloneCommitmentNode heap a
    let node ← heap[a]?
    if key = node.key then
      let heap ← refreshCommitmentHash sha (heap.set a { node with value := value }) a
      return (heap, a)
    else if key < node.key then
      let (heap, left) ← commitmentSet fuel heap node.left key value
      let heap := heap.set a { node with left := some left }
      let less ← commitmentPriorityLess heap (some left) a
      let (heap, a) ← if less then rotateCommitmentRight sha heap a else some (heap, a)
      let heap ← refreshCommitmentHash sha heap a
      return (heap, a)
    else
      let (heap, right) ← commitmentSet fuel heap node.right key value
      let heap := heap.set a { node with right := some right }
      let less ← commitmentPriorityLess heap (some right) a
      let (heap, a) ← if less then rotateCommitmentLeft sha heap a else some (heap, a)
      let heap ← refreshCommitmentHash sha heap a
      return (heap, a)

/-! ## Trees in the heap -/

def rank (key : String) : List (Fin 256) ×ₗ String :=
  toLex (sha.priority key, key)

lemma rank_injective : Function.Injective (rank sha) := by
  intro key key' h
  have hpair := toLex.injective h
  exact (Prod.mk.inj hpair).2

abbrev Tree := Treap String String

def Tree.hash (t : Tree) : String :=
  t.fold sha.empty sha.node

/-- The nodes reached from `p` form the tree `t`. -/
def Rep (heap : Heap) (A : Nat → Prop) : Option Nat → Tree → Prop
  | p, .nil => p = none
  | p, .node left key value right => ∃ a node, p = some a ∧ A a ∧ heap[a]? = some node ∧
      node.key = key ∧ node.value = value ∧ node.priority = sha.priority key ∧
      node.hash = Tree.hash sha (.node left key value right) ∧
      Rep heap A node.left left ∧ Rep heap A node.right right

variable {sha} {heap heap' : Heap} {A B : Nat → Prop} {p : Option Nat} {t : Tree}

section

variable (h : Rep sha heap A p t)

include h

lemma Rep.frame (hheap : ∀ a, A a → heap'[a]? = heap[a]?) (hAB : ∀ a, A a → B a) :
    Rep sha heap' B p t := by
  induction t generalizing p with
  | nil => exact h
  | node left key value right ihl ihr =>
    obtain ⟨a, node, hp, ha, hnode, hkey, hval, hprio, hhash, hleft, hright⟩ := h
    refine ⟨a, node, hp, hAB a ha, ?_, hkey, hval, hprio, hhash, ihl hleft, ihr hright⟩
    rw [hheap a ha, hnode]

lemma Rep.hashAt : State.hashAt sha heap p = some (Tree.hash sha t) := by
  cases t with
  | nil =>
    cases h
    rfl
  | node left key value right =>
    obtain ⟨a, node, rfl, -, hnode, -, -, -, hhash, -, -⟩ := h
    simp [State.hashAt, hnode, hhash]

lemma Rep.mem_keys {q : String} (hq : q ∈ t.keys) : q ∈ heap.map CommitmentNode.key := by
  induction t generalizing p with
  | nil => cases hq
  | node left key value right ihl ihr =>
    obtain ⟨a, node, -, -, hnode, hkey, -, -, -, hleft, hright⟩ := h
    rcases mem_append.1 hq with hq | hq
    · exact ihl hleft hq
    rcases mem_cons.1 hq with rfl | hq
    · exact mem_map.2 ⟨node, mem_of_getElem? hnode, hkey⟩
    · exact ihr hright hq

lemma Rep.depth_le (hord : t.Ordered) : t.depth ≤ heap.length := by
  calc t.depth ≤ t.keys.length := t.depth_le_length_keys
    _ ≤ (heap.map CommitmentNode.key).length :=
        hord.nodup_keys.length_le_of_subset fun _ hq => h.mem_keys hq
    _ = heap.length := length_map ..

end

/-! ## Comparing priorities -/

lemma priorityLess_iff {l r : List (Fin 256)} (hlen : l.length = r.length) (key key' : String) :
    priorityLess l r (key < key') = true ↔ toLex (l, key) < toLex (r, key') := by
  induction l generalizing r with
  | nil =>
    have hr : r = [] := length_eq_zero_iff.1 hlen.symm
    subst hr
    simp [priorityLess, Prod.Lex.toLex_lt_toLex]
  | cons x l ih =>
    cases r with
    | nil => simp at hlen
    | cons y r =>
      have htail := ih (Nat.succ.inj hlen)
      rw [Prod.Lex.toLex_lt_toLex] at htail ⊢
      simp only [priorityLess, cons_lt_cons_iff, List.cons.injEq]
      rcases lt_trichotomy x y with hlt | rfl | hgt
      · simp [hlt]
      · simpa using htail
      · simp [hgt, hgt.not_gt, hgt.ne']

lemma Rep.commitmentPriorityLess (h : Rep sha heap A p t) {a : Nat} {node : CommitmentNode}
    (hnode : heap[a]? = some node) (hprio : node.priority = sha.priority node.key) :
    State.commitmentPriorityLess heap p a = some (t.outranks (rank sha) node.key) := by
  cases t with
  | nil =>
    cases h
    rfl
  | node left key value right =>
    obtain ⟨b, child, rfl, -, hchild, hkey, -, hchildPriority, -, -, -⟩ := h
    have hlen : (sha.priority key).length = (sha.priority node.key).length := by
      rw [sha.priority_length, sha.priority_length]
    have hless := priorityLess_iff hlen key node.key
    simp only [State.commitmentPriorityLess, hchild, hnode, Option.bind_eq_bind, Option.bind_some,
      hchildPriority, hprio, hkey, Treap.outranks, rank]
    exact congrArg some (Bool.eq_iff_iff.2 (hless.trans (decide_eq_true_iff).symm))

/-! ## Updates -/

structure Extends (heap heap' : Heap) : Prop where
  length_le : heap.length ≤ heap'.length
  keeps : ∀ a, a < heap.length → heap'[a]? = heap[a]?

lemma Extends.trans {heap'' : Heap} (h : Extends heap heap') (h' : Extends heap' heap'') :
    Extends heap heap'' where
  length_le := h.length_le.trans h'.length_le
  keeps a ha := (h'.keeps a (ha.trans_le h.length_le)).trans (h.keeps a ha)

section Node

variable {a : Nat} {node : CommitmentNode} {left right : Tree}

lemma refreshCommitmentHash_rep (hnode : heap[a]? = some node)
    (hprio : node.priority = sha.priority node.key) (hleft : Rep sha heap A node.left left)
    (hright : Rep sha heap A node.right right) (ha : ¬ A a) :
    ∃ heap', refreshCommitmentHash sha heap a = some heap' ∧ heap'.length = heap.length ∧
      (∀ b, b ≠ a → heap'[b]? = heap[b]?) ∧
      Rep sha heap' (fun b => b = a ∨ A b) (some a) (.node left node.key node.value right) := by
  have hlt : a < heap.length := (List.getElem?_eq_some_iff.1 hnode).1
  have hother : ∀ (n : CommitmentNode) b, b ≠ a → (heap.set a n)[b]? = heap[b]? := fun n b hb =>
    getElem?_set_ne hb.symm
  have hkeeps : ∀ (n : CommitmentNode) b, A b → (heap.set a n)[b]? = heap[b]? := fun n b hb =>
    hother n b fun hba => ha (hba ▸ hb)
  refine ⟨heap.set a { node with hash := Tree.hash sha (.node left node.key node.value right) },
    ?_, length_set .., hother _, ?_⟩
  · simp [refreshCommitmentHash, hnode, hleft.hashAt, hright.hashAt, Tree.hash, Treap.fold]
  · refine ⟨a, _, rfl, .inl rfl, getElem?_set_self hlt, rfl, rfl, hprio, rfl, ?_, ?_⟩
    · exact hleft.frame (hkeeps _) fun _ => .inr
    · exact hright.frame (hkeeps _) fun _ => .inr

lemma refreshCommitmentHash_of_rep {key value : String}
    (h : Rep sha heap A (some a) (.node left key value right)) :
    refreshCommitmentHash sha heap a = some heap := by
  obtain ⟨b, node, hb, -, hnode, rfl, rfl, -, hhash, hleft, hright⟩ := h
  cases hb
  have hlt : a < heap.length := (List.getElem?_eq_some_iff.1 hnode).1
  have hsame : heap.set a node = heap := by
    rw [← (List.getElem?_eq_some_iff.1 hnode).2]
    exact set_getElem_self hlt
  have hnode' : CommitmentNode.mk node.key node.value node.priority node.left node.right
      (sha.node (Tree.hash sha left) node.key node.value (Tree.hash sha right)) = node := by
    cases node
    simp only at hhash
    simp [hhash, Tree.hash, Treap.fold]
  simp [refreshCommitmentHash, hnode, hleft.hashAt, hright.hashAt, hnode', hsame]

/-- A rotation at `a` allocates the new root and writes to no other node. -/
structure Rotated (sha : Sha) (heap : Heap) (A : Nat → Prop) (a : Nat) (heap' : Heap) (t : Tree) :
    Prop where
  length_eq : heap'.length = heap.length + 1
  keeps : ∀ b, b < heap.length → b ≠ a → heap'[b]? = heap[b]?
  rep : Rep sha heap' (fun b => b = heap.length ∨ b = a ∨ A b) (some heap.length) t
  ne_nil : t ≠ .nil

/-- `next` is allocated, it and the node at `a` are written, and both hashes are refreshed. -/
lemma rotated_refresh {node' next next' : CommitmentNode} {written : Heap} {left' right' : Tree}
    (hwrote : ((heap ++ [next]).set a node').set heap.length next' = written)
    (hnode : heap[a]? = some node) (hA : ∀ b, A b → b < heap.length) (ha : ¬ A a)
    (hprio : node'.priority = sha.priority node'.key)
    (hnprio : next'.priority = sha.priority next'.key)
    (hleft : Rep sha heap A node'.left left) (hright : Rep sha heap A node'.right right)
    (hchildren : ∀ heap', (∀ b, A b → heap'[b]? = heap[b]?) →
      Rep sha heap' (fun b => b = a ∨ A b) (some a) (.node left node'.key node'.value right) →
      Rep sha heap' (fun b => b = a ∨ A b) next'.left left' ∧
        Rep sha heap' (fun b => b = a ∨ A b) next'.right right') :
    ∃ heap₁ heap₂, refreshCommitmentHash sha written a = some heap₁ ∧
      refreshCommitmentHash sha heap₁ heap.length = some heap₂ ∧
      Rotated sha heap A a heap₂ (.node left' next'.key next'.value right') := by
  have hlt : a < heap.length := (List.getElem?_eq_some_iff.1 hnode).1
  have hkeeps : ∀ b, b < heap.length → b ≠ a → written[b]? = heap[b]? := by
    intro b hb hba
    rw [← hwrote, getElem?_set_ne hb.ne', getElem?_set_ne hba.symm, getElem?_append_left hb]
  have hkeepsA : ∀ b, A b → written[b]? = heap[b]? := fun b hb =>
    hkeeps b (hA b hb) fun h => ha (h ▸ hb)
  have hroot : written[a]? = some node' := by
    rw [← hwrote, getElem?_set_ne hlt.ne']
    apply getElem?_set_self
    rw [length_append]
    exact Nat.lt_add_right _ hlt
  have hnext : written[heap.length]? = some next' := by
    rw [← hwrote]
    exact getElem?_set_self (by simp)
  rcases refreshCommitmentHash_rep hroot hprio (hleft.frame hkeepsA fun _ h => h)
    (hright.frame hkeepsA fun _ h => h) ha with ⟨heap₁, hrefr₁, hlen₁, hkeeps₁, hrep₁⟩
  have hkeeps₁A : ∀ b, A b → heap₁[b]? = heap[b]? := fun b hb =>
    (hkeeps₁ b fun h => ha (h ▸ hb)).trans (hkeepsA b hb)
  obtain ⟨hl, hr⟩ := hchildren heap₁ hkeeps₁A hrep₁
  have hfresh : ¬ (heap.length = a ∨ A heap.length) := fun h =>
    h.elim hlt.ne' fun h => lt_irrefl _ (hA _ h)
  rcases refreshCommitmentHash_rep ((hkeeps₁ _ hlt.ne').trans hnext) hnprio hl hr hfresh with
    ⟨heap₂, hrefr₂, hlen₂, hkeeps₂, hrep₂⟩
  refine ⟨heap₁, heap₂, hrefr₁, hrefr₂, ?_, fun b hb hba => ?_, hrep₂, by simp⟩
  · simp [hlen₂, hlen₁, ← hwrote]
  · rw [hkeeps₂ b hb.ne, hkeeps₁ b hba, hkeeps b hb hba]

section

variable (hnode : heap[a]? = some node) (hprio : node.priority = sha.priority node.key)
  (hleft : Rep sha heap A node.left left) (hright : Rep sha heap A node.right right) (ha : ¬ A a)

include hnode hprio hleft hright ha

lemma rotateCommitmentRight_rep (hA : ∀ b, A b → b < heap.length)
    (hup : left.outranks (rank sha) node.key = true) :
    ∃ heap', rotateCommitmentRight sha heap a = some (heap', heap.length) ∧
      Rotated sha heap A a heap' (Treap.rotateRight (.node left node.key node.value right)) := by
  cases left with
  | nil => cases hup
  | node b x xv c =>
    obtain ⟨child, next, hchild, -, hnnode, rfl, rfl, hnprio, -, hb, hc⟩ := hleft
    generalize hwrote : ((heap ++ [next]).set a { node with left := next.right }).set heap.length
      { next with right := some a } = written
    rcases rotated_refresh hwrote hnode hA ha hprio hnprio hc hright fun heap' hkeeps hrep =>
      ⟨hb.frame hkeeps fun _ => .inr, hrep⟩ with ⟨heap₁, heap₂, hrefr₁, hrefr₂, hrot⟩
    refine ⟨heap₂, ?_, hrot⟩
    simp [rotateCommitmentRight, cloneCommitmentNode, hnode, hchild, hnnode, hwrote, hrefr₁, hrefr₂]

lemma rotateCommitmentLeft_rep (hA : ∀ b, A b → b < heap.length)
    (hup : right.outranks (rank sha) node.key = true) :
    ∃ heap', rotateCommitmentLeft sha heap a = some (heap', heap.length) ∧
      Rotated sha heap A a heap' (Treap.rotateLeft (.node left node.key node.value right)) := by
  cases right with
  | nil => cases hup
  | node b x xv c =>
    obtain ⟨child, next, hchild, -, hnnode, rfl, rfl, hnprio, -, hb, hc⟩ := hright
    generalize hwrote : ((heap ++ [next]).set a { node with right := next.left }).set heap.length
      { next with left := some a } = written
    rcases rotated_refresh hwrote hnode hA ha hprio hnprio hleft hb fun heap' hkeeps hrep =>
      ⟨hrep, hc.frame hkeeps fun _ => .inr⟩ with ⟨heap₁, heap₂, hrefr₁, hrefr₂, hrot⟩
    refine ⟨heap₂, ?_, hrot⟩
    simp [rotateCommitmentLeft, cloneCommitmentNode, hnode, hchild, hnnode, hwrote, hrefr₁, hrefr₂]

/-- The end of `commitmentSet` on an inner node: compare it with the child that was set, rotate if
the child comes first, and refresh. -/
lemma raise_rep {rotate : Heap → Nat → Option (Heap × Nat)} {child : Option Nat} {t rotated : Tree}
    (hchild : Rep sha heap A child t)
    (hrotate : t.outranks (rank sha) node.key = true →
      ∃ heap', rotate heap a = some (heap', heap.length) ∧ Rotated sha heap A a heap' rotated) :
    ∃ heap' a', (do
        let less ← commitmentPriorityLess heap child a
        let (heap, a) ← if less then rotate heap a else some (heap, a)
        let heap ← refreshCommitmentHash sha heap a
        return (heap, a)) = some (heap', a') ∧ heap.length ≤ heap'.length ∧
      (∀ d, d < heap.length → d ≠ a → heap'[d]? = heap[d]?) ∧
      Rep sha heap' (fun d => A d ∨ d = a ∨ heap.length ≤ d ∧ d < heap'.length) (some a')
        (if t.outranks (rank sha) node.key then rotated
          else .node left node.key node.value right) := by
  rw [hchild.commitmentPriorityLess hnode hprio]
  by_cases hup : t.outranks (rank sha) node.key = true
  · obtain ⟨heap', hrotated, hlen, hkeeps, hrep, hne⟩ := hrotate hup
    have hrefr : refreshCommitmentHash sha heap' heap.length = some heap' := by
      cases rotated with
      | nil => exact absurd rfl hne
      | node => exact refreshCommitmentHash_of_rep hrep
    refine ⟨heap', heap.length, ?_, by omega, hkeeps, ?_⟩
    · simp [hup, hrotated, hrefr]
    · rw [if_pos hup]
      apply hrep.frame fun _ _ => rfl
      intro d hd
      rcases hd with rfl | hd | hd
      · exact .inr (.inr ⟨le_rfl, by omega⟩)
      · exact .inr (.inl hd)
      · exact .inl hd
  · rcases refreshCommitmentHash_rep hnode hprio hleft hright ha
        with ⟨heap', hrefr, hlen, hkeeps, hrep⟩
    refine ⟨heap', a, ?_, hlen.ge, fun d _ hda => hkeeps d hda, ?_⟩
    · simp [hup, hrefr]
    · rw [if_neg hup]
      apply hrep.frame fun _ _ => rfl
      intro d hd
      exact hd.elim (fun h => .inr (.inl h)) .inl

end

end Node

/-- Writing to the copy of a node after a call that extended the heap: the addresses that the call's
tree may use are not the copy's. -/
lemma write_copy {node : CommitmentNode} (node' : CommitmentNode) (hA : ∀ a, A a → a < heap.length)
    (hext : Extends (heap ++ [node]) heap') (hB : ∀ b, B b ↔ A b ∨
      (heap ++ [node]).length ≤ b ∧ b < heap'.length) :
    (heap'.set heap.length node')[heap.length]? = some node' ∧ ¬ B heap.length ∧
      (∀ b, B b → b < (heap'.set heap.length node').length) ∧
      (∀ b, B b → (heap'.set heap.length node')[b]? = heap'[b]?) ∧
      ∀ b, b < heap.length → (heap'.set heap.length node')[b]? = heap[b]? := by
  have hlen := hext.length_le
  simp only [length_append, length_singleton] at hlen hB
  have hnot : ¬ B heap.length := by
    rw [hB]
    rintro (h | h)
    · exact lt_irrefl _ (hA _ h)
    · omega
  refine ⟨getElem?_set_self (by omega), hnot, ?_, ?_, ?_⟩
  · intro b hb
    rw [length_set]
    rcases (hB b).1 hb with h | h
    · exact (hA b h).trans_le (by omega)
    · exact h.2
  · intro b hb
    apply getElem?_set_ne
    rintro rfl
    exact hnot hb
  · intro b hb
    rw [getElem?_set_ne hb.ne', hext.keeps b (by simp; omega), getElem?_append_left hb]

lemma extends_of_raise {node : CommitmentNode} {heap₁ heap₂ : Heap} {a : Nat}
    (hext : Extends (heap ++ [node]) heap₁) (hlen : heap'.length = heap₁.length)
    (hold : ∀ b, b < heap.length → heap'[b]? = heap[b]?) (ha : a = heap.length)
    (hlen₂ : heap'.length ≤ heap₂.length)
    (hkeeps : ∀ b, b < heap'.length → b ≠ a → heap₂[b]? = heap'[b]?) :
    Extends heap heap₂ ∧ ∀ b, ((A b ∨ (heap ++ [node]).length ≤ b ∧ b < heap₁.length) ∨ b = a ∨
        heap'.length ≤ b ∧ b < heap₂.length) → A b ∨ heap.length ≤ b ∧ b < heap₂.length := by
  have hlen₁ := hext.length_le
  simp only [length_append, length_singleton] at hlen₁ ⊢
  refine ⟨⟨by omega, fun b hb => ?_⟩, ?_⟩
  · rw [hkeeps b (by omega) (by omega), hold b hb]
  · rintro b ((h | h) | h | h)
    · exact .inl h
    · exact .inr (by omega)
    · exact .inr (by omega)
    · exact .inr (by omega)

/-- `commitmentSet` inserts into the tree, and leaves the heap it is given as it was. -/
lemma commitmentSet_rep {fuel : Nat} (h : Rep sha heap A p t) (hA : ∀ a, A a → a < heap.length)
    (hfuel : t.depth < fuel) (key value : String) :
    ∃ heap' a, commitmentSet sha fuel heap p key value = some (heap', a) ∧ Extends heap heap' ∧
      Rep sha heap' (fun b => A b ∨ heap.length ≤ b ∧ b < heap'.length) (some a)
        (t.insert (rank sha) key value) := by
  induction t generalizing fuel heap A p with
  | nil =>
    cases h
    obtain ⟨fuel, rfl⟩ := Nat.exists_eq_succ_of_ne_zero (Nat.ne_of_gt hfuel)
    generalize hcreated : CommitmentNode.mk key value (sha.priority key) none none "" = created
    have hnode : (heap ++ [created])[heap.length]? = some created := by simp
    have hprio : created.priority = sha.priority created.key := by rw [← hcreated]
    have hnone : ∀ q : Option Nat, q = none →
        Rep sha (heap ++ [created]) (fun _ => False) q .nil := fun _ hq => hq
    rcases refreshCommitmentHash_rep hnode hprio (hnone created.left (by rw [← hcreated]))
      (hnone created.right (by rw [← hcreated])) not_false with
      ⟨heap', hrefr, hlen, hkeeps, hrep⟩
    have hlen' : heap'.length = heap.length + 1 := by rw [hlen]; simp
    refine ⟨heap', heap.length, ?_, ⟨by omega, ?_⟩, ?_⟩
    · simp [commitmentSet, hcreated, hrefr]
    · intro b hb
      rw [hkeeps b hb.ne, getElem?_append_left hb]
    · rw [← hcreated] at hrep
      apply hrep.frame fun _ _ => rfl
      rintro b (rfl | hb)
      · exact .inr ⟨le_rfl, by omega⟩
      · exact hb.elim
  | node left k v right ihl ihr =>
    obtain ⟨a, node, rfl, -, hnode, rfl, rfl, hprio, -, hleft, hright⟩ := h
    obtain ⟨fuel, rfl⟩ := Nat.exists_eq_succ_of_ne_zero (Nat.ne_of_gt (Nat.zero_lt_of_lt hfuel))
    simp only [Treap.depth, Nat.succ_lt_succ_iff] at hfuel
    have hcopy : (heap ++ [node])[heap.length]? = some node := by simp
    have hkeeps : ∀ b, A b → (heap ++ [node])[b]? = heap[b]? := fun b hb =>
      getElem?_append_left (hA b hb)
    have hA' : ∀ b, A b → b < (heap ++ [node]).length := fun b hb => by
      rw [length_append]
      exact Nat.lt_add_right _ (hA b hb)
    have hleft' := hleft.frame hkeeps fun _ h => h
    have hright' := hright.frame hkeeps fun _ h => h
    by_cases heq : key = node.key
    · -- the key is there: a copy with the new value
      have hext : Extends (heap ++ [node]) (heap ++ [node]) := ⟨le_rfl, fun _ _ => rfl⟩
      rcases write_copy (B := A) { node with value := value } hA hext
        (fun b => ⟨.inl, fun h => h.elim id fun h => absurd h.2 h.1.not_gt⟩) with
        ⟨hcopy', hfresh, -, hkeeps', hold⟩
      rcases refreshCommitmentHash_rep hcopy' hprio (hleft'.frame hkeeps' fun _ h => h)
        (hright'.frame hkeeps' fun _ h => h) hfresh with ⟨heap', hrefr, hlen, hother, hrep⟩
      have hlen' : heap'.length = heap.length + 1 := by simp [hlen]
      refine ⟨heap', heap.length, ?_, ⟨by omega, ?_⟩, ?_⟩
      · simp only [commitmentSet, cloneCommitmentNode, hnode, Option.bind_eq_bind,
          Option.bind_some, hcopy, heq, if_true, hrefr, Option.pure_def]
      · intro b hb
        rw [hother b hb.ne, hold b hb]
      · rw [Treap.insert, if_pos heq]
        apply hrep.frame fun _ _ => rfl
        rintro b (rfl | hb)
        · exact .inr ⟨le_rfl, by omega⟩
        · exact .inl hb
    · -- otherwise it is set below, and the copy is rotated if the child then comes first
      by_cases hlt : key < node.key
      · rcases ihl hleft' hA' (lt_of_le_of_lt (le_max_left _ _) hfuel)
            with ⟨heap₁, child, hset, hext, hrep⟩
        rcases write_copy { node with left := some child } hA hext (fun b => Iff.rfl) with
          ⟨hcopy', hfresh, hbound, hkeeps', hold⟩
        have hl := hrep.frame hkeeps' fun _ h => h
        have hr := hright.frame (fun b hb => hold b (hA b hb)) fun b hb =>
          (.inl hb : A b ∨ (heap ++ [node]).length ≤ b ∧ b < heap₁.length)
        have hrotate := rotateCommitmentRight_rep hcopy' hprio hl hr hfresh hbound
        rcases raise_rep hcopy' hprio hl hr hfresh hl hrotate
            with ⟨heap₂, a', hraise, hlen, hkeeps₂, hrep₂⟩
        rcases extends_of_raise (A := A) hext (length_set ..) hold rfl hlen hkeeps₂
          with ⟨hextends, haddr⟩
        refine ⟨heap₂, a', ?_, hextends, ?_⟩
        · simp only [commitmentSet, cloneCommitmentNode, hnode, Option.bind_eq_bind,
            Option.bind_some, hcopy, heq, hlt, if_false, if_true, hset, Option.pure_def]
          exact hraise
        · rw [Treap.insert, if_neg heq, if_pos hlt]
          exact hrep₂.frame (fun _ _ => rfl) haddr
      · rcases ihr hright' hA' (lt_of_le_of_lt (le_max_right _ _) hfuel) with
          ⟨heap₁, child, hset, hext, hrep⟩
        rcases write_copy { node with right := some child } hA hext (fun b => Iff.rfl) with
          ⟨hcopy', hfresh, hbound, hkeeps', hold⟩
        have hr := hrep.frame hkeeps' fun _ h => h
        have hl := hleft.frame (fun b hb => hold b (hA b hb)) fun b hb =>
          (.inl hb : A b ∨ (heap ++ [node]).length ≤ b ∧ b < heap₁.length)
        have hrotate := rotateCommitmentLeft_rep hcopy' hprio hl hr hfresh hbound
        rcases raise_rep hcopy' hprio hl hr hfresh hr hrotate
            with ⟨heap₂, a', hraise, hlen, hkeeps₂, hrep₂⟩
        rcases extends_of_raise (A := A) hext (length_set ..) hold rfl hlen hkeeps₂
          with ⟨hextends, haddr⟩
        refine ⟨heap₂, a', ?_, hextends, ?_⟩
        · simp only [commitmentSet, cloneCommitmentNode, hnode, Option.bind_eq_bind,
            Option.bind_some, hcopy, heq, hlt, if_false, hset, Option.pure_def]
          exact hraise
        · rw [Treap.insert, if_neg heq, if_neg hlt]
          exact hrep₂.frame (fun _ _ => rfl) haddr

/-! ## Maps -/

def sortedEntries (m : GoMap String String) : List (String × String) :=
  m.sortedKeys.map fun key => (key, m.get key)

def putAll (m : GoMap String String) (entries : List (String × String)) : GoMap String String :=
  entries.foldl (fun m e => m.put e.1 e.2) m

lemma find_putAll (f : String → String) (keys : List String) (m : GoMap String String)
    (q : String) :
    (putAll m (keys.map fun key => (key, f key))).find q =
      if q ∈ keys then some (f q) else m.find q := by
  rw [putAll, foldl_map, GoMap.find_foldl_put f]

lemma find_putAll_sortedEntries (m : GoMap String String) (q : String) :
    (putAll ∅ (sortedEntries m)).find q = m.find q := by
  rw [sortedEntries, find_putAll m.get]
  by_cases hq : q ∈ m.sortedKeys
  · obtain ⟨v, hv⟩ := GoMap.mem_sortedKeys.1 hq
    rw [if_pos hq, GoMap.get_of_find hv, hv]
  · rw [if_neg hq]
    cases hfind : m.find q with
    | none => rfl
    | some v => exact absurd (GoMap.mem_sortedKeys.2 ⟨v, hfind⟩) hq

structure Tree.Commits (sha : Sha) (t : Tree) (m : GoMap String String) : Prop where
  ordered : t.Ordered
  heaped : t.Heaped (rank sha)
  find : ∀ q, t.find q = m.find q

namespace Tree.Commits

variable {m m' : GoMap String String} {t' : Tree}

lemma nil : Tree.Commits sha .nil ∅ :=
  ⟨trivial, trivial, fun _ => rfl⟩

section

variable (h : Tree.Commits sha t m)

include h

lemma insert (key value : String) : Tree.Commits sha (t.insert (rank sha) key value)
    (m.put key value) where
  ordered := Treap.ordered_insert h.ordered key value
  heaped := Treap.heaped_insert (rank_injective sha) h.heaped key value
  find q := by rw [Treap.find_insert h.ordered, GoMap.find_put, h.find]

lemma congr (hm : ∀ q, m.find q = m'.find q) : Tree.Commits sha t m' :=
  ⟨h.ordered, h.heaped, fun q => (h.find q).trans (hm q)⟩

lemma unique (h' : Tree.Commits sha t' m) : t = t' :=
  Treap.eq_of_find (rank_injective sha) h.ordered h.heaped h'.ordered h'.heaped fun q =>
    (h.find q).trans (h'.find q).symm

end

end Tree.Commits

variable (sha)

def treeOf (m : GoMap String String) : Tree :=
  (sortedEntries m).foldl (fun t e => t.insert (rank sha) e.1 e.2) .nil

lemma Tree.Commits.foldl {m : GoMap String String} (entries : List (String × String))
    (h : Tree.Commits sha t m) :
    Tree.Commits sha (entries.foldl (fun t e => t.insert (rank sha) e.1 e.2) t)
    (putAll m entries) := by
  induction entries generalizing t m with
  | nil => exact h
  | cons e entries ih => exact ih (h.insert e.1 e.2)

lemma commits_treeOf (m : GoMap String String) : Tree.Commits sha (treeOf sha m) m :=
  (Tree.Commits.foldl sha (sortedEntries m) Tree.Commits.nil).congr (find_putAll_sortedEntries m)

def snapshotRoot (m : GoMap String String) : String :=
  Tree.hash sha (treeOf sha m)

lemma snapshotRoot_congr {m m' : GoMap String String} (h : ∀ q, m.find q = m'.find q) :
    snapshotRoot sha m = snapshotRoot sha m' := by
  unfold snapshotRoot
  rw [((commits_treeOf sha m).congr h).unique (commits_treeOf sha m')]

/-! ## Collisions -/

/-- No two trees hash to the same root, and no root is the empty text. -/
structure Sha.CollisionFree (sha : Sha) : Prop where
  node_inj : ∀ {left key value right left' key' value' right' : String},
    sha.node left key value right = sha.node left' key' value' right' →
      left = left' ∧ key = key' ∧ value = value' ∧ right = right'
  node_ne_empty : ∀ left key value right, sha.node left key value right ≠ sha.empty
  empty_ne : sha.empty ≠ ""
  node_ne : ∀ left key value right, sha.node left key value right ≠ ""

variable {sha}

lemma Sha.CollisionFree.hash_ne (h : sha.CollisionFree) (t : Tree) : Tree.hash sha t ≠ "" := by
  cases t with
  | nil => exact h.empty_ne
  | node => exact h.node_ne _ _ _ _

lemma Sha.CollisionFree.hash_injective (h : sha.CollisionFree) {t t' : Tree}
    (heq : Tree.hash sha t = Tree.hash sha t') : t = t' := by
  induction t generalizing t' with
  | nil =>
    cases t' with
    | nil => rfl
    | node => exact absurd heq.symm (h.node_ne_empty _ _ _ _)
  | node left key value right ihl ihr =>
    cases t' with
    | nil => exact absurd heq (h.node_ne_empty _ _ _ _)
    | node left' key' value' right' =>
      obtain ⟨hleft, rfl, rfl, hright⟩ := h.node_inj heq
      rw [ihl hleft, ihr hright]

lemma Tree.Commits.of_hash {m : GoMap String String} (hsha : sha.CollisionFree)
    (h : Tree.hash sha t = snapshotRoot sha m) : Tree.Commits sha t m := by
  rw [hsha.hash_injective h]
  exact commits_treeOf sha m

lemma Tree.Commits.hash {m : GoMap String String} (h : Tree.Commits sha t m) :
    Tree.hash sha t = snapshotRoot sha m := by
  rw [h.unique (commits_treeOf sha m)]
  rfl

lemma snapshotRoot_inj {m m' : GoMap String String} (hsha : sha.CollisionFree)
    (h : snapshotRoot sha m = snapshotRoot sha m') (q : String) : m.find q = m'.find q := by
  have hcomm : Tree.Commits sha (treeOf sha m) m' := Tree.Commits.of_hash hsha h
  rw [← hcomm.find, (commits_treeOf sha m).find]

/-- Nodes written out in full, under equal priorities. -/
def plainSha : Sha where
  priority _ := List.replicate 32 0
  priority_length _ := length_replicate
  empty := "empty"
  node left key value right :=
    String.ofList (Digest.encodeList Digest.encodeString [left, key, value, right])
  text := id

lemma plainSha_collisionFree : plainSha.CollisionFree where
  node_inj {left key value right left' key' value' right'} h := by
    have hlist := congrArg String.toList h
    simp only [plainSha, String.toList_ofList] at hlist
    have hcode := Digest.selfDelimiting_list Digest.selfDelimiting_string
    rcases hcode [left, key, value, right] [left', key', value', right'] [] [] (by rw [hlist]) with
      ⟨heq, -⟩
    simpa using heq
  node_ne_empty left key value right h := by
    have hlist := congrArg String.toList h
    simp [plainSha, Digest.encodeList] at hlist
  empty_ne := by decide
  node_ne left key value right h := by
    have hlist := congrArg String.toList h
    simp [plainSha, Digest.encodeList] at hlist

/-! ## Commitments -/

variable (sha)

/-- `Commitment.Set`, on the root of a commitment. -/
def setRoot (heap : Heap) (root : Option Nat) (key value : String) : Option (Heap × Option Nat) :=
  (commitmentSet sha (heap.length + 1) heap root key value).map fun r => (r.1, some r.2)

def setAll (heap : Heap) (root : Option Nat) (entries : List (String × String)) :
    Option (Heap × Option Nat) :=
  entries.foldlM (fun s e => setRoot sha s.1 s.2 e.1 e.2) (heap, root)

def newCommitment (heap : Heap) (snapshot : GoMap String String) : Option (Heap × Option Nat) :=
  setAll sha heap none (sortedEntries snapshot)

/-- `state.Root`: the root of a new commitment. -/
def rootOf (snapshot : GoMap String String) : Option String := do
  let (heap, root) ← newCommitment sha [] snapshot
  hashAt sha heap root

structure Commitments where
  heap : Heap
  roots : List (Option Nat)

/-- Calls of the package, each on the commitment of a number.  A number that no commitment has
stands for a nil `Commitment`. -/
inductive Call where
  | newCommitment (snapshot : GoMap String String)
  | clone (c : Nat)
  | set (c : Nat) (key value : String)
  | apply (c : Nat) (updates : GoMap String String) (qualify : Option (String → String))

/-- The assignments of `Commitment.Apply`. -/
def qualifiedEntries (updates : GoMap String String) (qualify : Option (String → String)) :
    List (String × String) :=
  (sortedEntries updates).map fun e => (qualify.getD id e.1, e.2)

namespace Commitments

def step (s : Commitments) : Call → Option Commitments
  | .newCommitment snapshot => do
    let (heap, root) ← State.newCommitment sha s.heap snapshot
    return ⟨heap, s.roots ++ [root]⟩
  | .clone c =>
    match s.roots[c]? with
    | none => some s
    | some root => some ⟨s.heap, s.roots ++ [root]⟩
  | .set c key value =>
    match s.roots[c]? with
    | none => some s
    | some root => do
      let (heap, root) ← setRoot sha s.heap root key value
      return ⟨heap, s.roots.set c root⟩
  | .apply c updates qualify =>
    match s.roots[c]? with
    | none => some s
    | some root => do
      let (heap, root) ← setAll sha s.heap root (qualifiedEntries updates qualify)
      return ⟨heap, s.roots.set c root⟩

def run (calls : List Call) : Option Commitments :=
  calls.foldlM (step sha) ⟨[], []⟩

def root (s : Commitments) (c : Nat) : Option String :=
  hashAt sha s.heap (s.roots[c]?.getD none)

end Commitments

/-- What a call does to the maps that the commitments stand for. -/
def contentsAfter (maps : List (GoMap String String)) : Call → List (GoMap String String)
  | .newCommitment snapshot => maps ++ [snapshot]
  | .clone c =>
    match maps[c]? with
    | none => maps
    | some m => maps ++ [m]
  | .set c key value =>
    match maps[c]? with
    | none => maps
    | some m => maps.set c (m.put key value)
  | .apply c updates qualify =>
    match maps[c]? with
    | none => maps
    | some m => maps.set c (putAll m (qualifiedEntries updates qualify))

def contents (calls : List Call) : List (GoMap String String) :=
  calls.foldl contentsAfter []

/-! ## Runs -/

/-- The tree below `root` is the treap of the map. -/
def CommitsAt (heap : Heap) (root : Option Nat) (m : GoMap String String) : Prop :=
  ∃ t, Rep sha heap (fun a => a < heap.length) root t ∧ Tree.Commits sha t m

variable {sha} {root : Option Nat} {m m' : GoMap String String}

lemma CommitsAt.mono (h : CommitsAt sha heap root m) (hext : Extends heap heap') :
    CommitsAt sha heap' root m := by
  obtain ⟨t, hrep, ht⟩ := h
  exact ⟨t, hrep.frame hext.keeps fun a ha => lt_of_lt_of_le ha hext.length_le, ht⟩

lemma CommitsAt.setRoot (h : CommitsAt sha heap root m) (key value : String) :
    ∃ heap' root', setRoot sha heap root key value = some (heap', root') ∧ Extends heap heap' ∧
      CommitsAt sha heap' root' (m.put key value) := by
  obtain ⟨t, hrep, ht⟩ := h
  have hdepth : t.depth < heap.length + 1 := Nat.lt_succ_of_le (hrep.depth_le ht.ordered)
  rcases commitmentSet_rep hrep (fun _ ha => ha) hdepth key value with ⟨heap', a, hset, hext, hrep'⟩
  refine ⟨heap', some a, ?_, hext, _, hrep'.frame (fun _ _ => rfl) ?_, ht.insert key value⟩
  · simp [State.setRoot, hset]
  · intro b hb
    exact hb.elim (fun h => lt_of_lt_of_le h hext.length_le) And.right

lemma CommitsAt.setAll (entries : List (String × String)) (h : CommitsAt sha heap root m) :
    ∃ heap' root', setAll sha heap root entries = some (heap', root') ∧ Extends heap heap' ∧
      CommitsAt sha heap' root' (putAll m entries) := by
  induction entries generalizing heap root m with
  | nil => exact ⟨heap, root, rfl, ⟨le_rfl, fun _ _ => rfl⟩, h⟩
  | cons e entries ih =>
    obtain ⟨heap₁, root₁, hset, hext, h₁⟩ := h.setRoot e.1 e.2
    obtain ⟨heap₂, root₂, hall, hext', h₂⟩ := ih h₁
    refine ⟨heap₂, root₂, ?_, hext.trans hext', h₂⟩
    simp only [State.setAll, foldlM_cons, hset] at hall ⊢
    exact hall

variable (sha) in
lemma commitsAt_newCommitment (heap : Heap) (m : GoMap String String) :
    ∃ heap' root, newCommitment sha heap m = some (heap', root) ∧ Extends heap heap' ∧
      CommitsAt sha heap' root m := by
  have hemp : CommitsAt sha heap none ∅ := ⟨.nil, rfl, Tree.Commits.nil⟩
  obtain ⟨heap', root, hset, hext, t, hrep, ht⟩ := hemp.setAll (sortedEntries m)
  exact ⟨heap', root, hset, hext, t, hrep, ht.congr (find_putAll_sortedEntries m)⟩

lemma CommitsAt.hashAt (h : CommitsAt sha heap root m) :
    ∃ hash, State.hashAt sha heap root = some hash ∧
      ∀ m', (∀ q, m'.find q = m.find q) → rootOf sha m' = some hash := by
  obtain ⟨t, hrep, ht⟩ := h
  refine ⟨Tree.hash sha t, hrep.hashAt, ?_⟩
  intro m' hm
  obtain ⟨heap', root', hnew, -, t', hrep', ht'⟩ := commitsAt_newCommitment sha [] m'
  have htree : t' = t := (ht'.congr hm).unique ht
  simp [rootOf, hnew, hrep'.hashAt, htree]

namespace Commitments

structure Sound (sha : Sha) (s : Commitments) (maps : List (GoMap String String)) : Prop where
  length : s.roots.length = maps.length
  commits : ∀ (c : Nat) root m, s.roots[c]? = some root → maps[c]? = some m →
    CommitsAt sha s.heap root m

variable {s s' : Commitments} {maps : List (GoMap String String)} {c : Nat}

section

variable (h : Sound sha s maps)

include h

lemma Sound.exists_root (hm : maps[c]? = some m) :
    ∃ root, s.roots[c]? = some root ∧ CommitsAt sha s.heap root m := by
  have hlt : c < s.roots.length := by
    rw [h.length]
    exact (List.getElem?_eq_some_iff.1 hm).1
  exact ⟨s.roots[c], getElem?_eq_getElem hlt, h.commits c _ m (getElem?_eq_getElem hlt) hm⟩

lemma Sound.roots_eq_none : maps[c]? = none ↔ s.roots[c]? = none := by
  rw [getElem?_eq_none_iff, getElem?_eq_none_iff, h.length]

lemma Sound.append (hext : Extends s.heap heap')
    (hroot : CommitsAt sha heap' root m) : Sound sha ⟨heap', s.roots ++ [root]⟩ (maps ++ [m]) := by
  refine ⟨by simp [h.length], ?_⟩
  intro c root' m' hr hm
  rw [getElem?_append] at hr hm
  rw [← h.length] at hm
  split at hr
  · next hlt =>
    rw [if_pos hlt] at hm
    exact (h.commits c root' m' hr hm).mono hext
  · next hge =>
    rw [if_neg hge] at hm
    rw [getElem?_singleton] at hr hm
    split at hr
    · next hlast =>
      rw [if_pos hlast] at hm
      cases hr
      cases hm
      exact hroot
    · cases hr

lemma Sound.set (hext : Extends s.heap heap') (hroot : CommitsAt sha heap' root m) (c : Nat) :
    Sound sha ⟨heap', s.roots.set c root⟩ (maps.set c m) := by
  refine ⟨by simp [h.length], ?_⟩
  intro d root' m' hr hm
  by_cases hd : d = c
  · subst hd
    rw [getElem?_set_self'] at hr hm
    obtain ⟨_, -, rfl⟩ := Option.map_eq_some_iff.1 hr
    obtain ⟨_, -, rfl⟩ := Option.map_eq_some_iff.1 hm
    exact hroot
  · rw [getElem?_set_ne (Ne.symm hd)] at hr hm
    exact (h.commits d root' m' hr hm).mono hext

lemma Sound.step (call : Call) : ∃ s', s.step sha call = some s' ∧ Extends s.heap s'.heap ∧
      Sound sha s' (contentsAfter maps call) := by
  have hrefl : Extends s.heap s.heap := ⟨le_rfl, fun _ _ => rfl⟩
  cases call with
  | newCommitment snapshot =>
    obtain ⟨heap', root, hnew, hext, hroot⟩ := commitsAt_newCommitment sha s.heap snapshot
    exact ⟨⟨heap', s.roots ++ [root]⟩, by simp [Commitments.step, hnew], hext, h.append hext hroot⟩
  | clone c =>
    cases hm : maps[c]? with
    | none =>
      exact ⟨s, by simp [Commitments.step, h.roots_eq_none.1 hm], hrefl,
        by simpa [contentsAfter, hm] using h⟩
    | some m =>
      obtain ⟨root, hr, hroot⟩ := h.exists_root hm
      exact ⟨⟨s.heap, s.roots ++ [root]⟩, by simp [Commitments.step, hr], hrefl,
        by simpa [contentsAfter, hm] using h.append hrefl hroot⟩
  | set c key value =>
    cases hm : maps[c]? with
    | none =>
      exact ⟨s, by simp [Commitments.step, h.roots_eq_none.1 hm], hrefl,
        by simpa [contentsAfter, hm] using h⟩
    | some m =>
      obtain ⟨root, hr, hroot⟩ := h.exists_root hm
      obtain ⟨heap', root', hset, hext, hroot'⟩ := hroot.setRoot key value
      exact ⟨⟨heap', s.roots.set c root'⟩, by simp [Commitments.step, hr, hset], hext,
        by simpa [contentsAfter, hm] using h.set hext hroot' c⟩
  | apply c updates qualify =>
    cases hm : maps[c]? with
    | none =>
      exact ⟨s, by simp [Commitments.step, h.roots_eq_none.1 hm], hrefl,
        by simpa [contentsAfter, hm] using h⟩
    | some m =>
      obtain ⟨root, hr, hroot⟩ := h.exists_root hm
      rcases hroot.setAll (qualifiedEntries updates qualify) with ⟨heap', root', hset, hext, hroot'⟩
      exact ⟨⟨heap', s.roots.set c root'⟩, by simp [Commitments.step, hr, hset], hext,
        by simpa [contentsAfter, hm] using h.set hext hroot' c⟩

lemma Sound.foldlM (calls : List Call) : ∃ s', calls.foldlM (Commitments.step sha) s = some s' ∧
      Sound sha s' (calls.foldl contentsAfter maps) := by
  induction calls generalizing s maps with
  | nil => exact ⟨s, rfl, h⟩
  | cons call calls ih =>
    obtain ⟨s₁, hstep, -, h₁⟩ := h.step call
    obtain ⟨s', hrun, h'⟩ := ih h₁
    refine ⟨s', ?_, h'⟩
    simp only [foldlM_cons, hstep]
    exact hrun

lemma Sound.root_eq (hext : Extends s.heap s'.heap)
    (hroots : s'.roots[c]? = s.roots[c]?) : s'.root sha c = s.root sha c := by
  unfold root
  rw [hroots]
  cases hr : s.roots[c]? with
  | none => rfl
  | some root =>
    cases hm : maps[c]? with
    | none => simp [h.roots_eq_none.1 hm] at hr
    | some m =>
      obtain ⟨t, hrep, -⟩ := h.commits c root m hr hm
      have hrep' := hrep.frame hext.keeps fun _ ha => ha
      simp only [Option.getD_some]
      rw [hrep.hashAt, hrep'.hashAt]

lemma Sound.root_set (key value : String) : ∃ s', s.step sha (.set c key value) = some s' ∧
      ∀ d, d ≠ c → s'.root sha d = s.root sha d := by
  obtain ⟨s', hstep, hext, -⟩ := h.step (.set c key value)
  refine ⟨s', hstep, ?_⟩
  intro d hd
  apply h.root_eq hext
  simp only [Commitments.step] at hstep
  split at hstep
  · cases hstep
    rfl
  · obtain ⟨r, -, hr⟩ := Option.bind_eq_some_iff.1 hstep
    cases hr
    exact getElem?_set_ne (Ne.symm hd)

end

end Commitments

/-- After every sequence of calls each commitment is a search tree by key and a heap by priority,
its root is the root of a new commitment over the final map, and setting a key in it leaves every
other root as it was. -/
theorem commitment_history_independent (sha : Sha) (calls : List Call) :
    ∃ s, Commitments.run sha calls = some s ∧ s.roots.length = (contents calls).length ∧
      (∀ c m, (contents calls)[c]? = some m →
        (∃ root t, s.roots[c]? = some root ∧ Rep sha s.heap (fun a => a < s.heap.length) root t ∧
          t.Ordered ∧ t.Heaped (rank sha) ∧ ∀ q, t.find q = m.find q) ∧
        ∃ hash, s.root sha c = some hash ∧ ∀ m', (∀ q, m'.find q = m.find q) →
          rootOf sha m' = some hash) ∧
      ∀ c key value, ∃ s', s.step sha (.set c key value) = some s' ∧
        ∀ d, d ≠ c → s'.root sha d = s.root sha d := by
  have hinit : Commitments.Sound sha ⟨[], []⟩ [] := ⟨rfl, by simp⟩
  obtain ⟨s, hrun, h⟩ := hinit.foldlM calls
  refine ⟨s, hrun, h.length, ?_, fun c key value => h.root_set key value⟩
  intro c m hm
  obtain ⟨root, hr, hroot⟩ := h.exists_root hm
  constructor
  · obtain ⟨t, hrep, ht⟩ := hroot
    exact ⟨root, t, hr, hrep, ht.ordered, ht.heaped, ht.find⟩
  · obtain ⟨hash, hhash, hsame⟩ := hroot.hashAt
    refine ⟨hash, ?_, hsame⟩
    simpa [Commitments.root, hr] using hhash

end ChainLab.State
