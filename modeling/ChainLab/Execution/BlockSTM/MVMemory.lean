import ChainLab.Data.Ascending
import ChainLab.Data.GoMap

/-!
# Multi-version memory

`execution/blockstm/mvmemory.go`: for each key, what the transactions of a block wrote to it.  Every
call holds the memory's lock, so an execution is a list of calls.  An entry belongs to a version, a
transaction with its incarnation: a re-execution leaves the entries of earlier incarnations where
they are, behind its own, and ClearTxnVersions removes all of them.

* Transaction indexes and incarnations are natural numbers.
* `sort.Slice` may swap equal elements; versions in a list are distinct, so that the order is given.
* Validate is one moment: no write comes between its reads.
-/

namespace ChainLab.BlockSTM

open List
open Ascending

structure Version where
  txn : Nat
  incarnation : Nat
deriving DecidableEq, Repr, Inhabited

def Version.less (v other : Version) : Bool :=
  if v.txn ≠ other.txn then v.txn < other.txn else v.incarnation < other.incarnation

lemma Version.less_iff {v other : Version} : v.less other = true ↔
    v.txn < other.txn ∨ v.txn = other.txn ∧ v.incarnation < other.incarnation := by
  unfold Version.less
  split <;> simp <;> omega

instance : LinearOrder Version where
  le v w := ¬ w.less v
  lt v w := v.less w
  le_refl v := by
    rw [Version.less_iff]
    omega
  le_trans u v w := by
    simp only [Version.less_iff]
    omega
  le_antisymm v w := by
    obtain ⟨t, i⟩ := v
    obtain ⟨t', i'⟩ := w
    simp only [Version.less_iff, Version.mk.injEq]
    omega
  le_total v w := by
    simp only [Version.less_iff]
    omega
  lt_iff_le_not_ge v w := by
    simp only [Version.less_iff]
    omega
  toDecidableLE := fun v w => inferInstanceAs (Decidable (¬ w.less v))

structure VersionedValue where
  version : Version
  value : String := ""
  estimate : Bool := false
deriving DecidableEq, Repr

structure ReadDescriptor where
  key : String := ""
  fromBase : Bool := false
  version : Version := ⟨0, 0⟩
  value : String := ""
  estimate : Bool := false
  dependencyOn : Option Version := none
deriving DecidableEq, Repr

def VersionedValue.descriptor (item : VersionedValue) (key : String) : ReadDescriptor where
  key := key
  version := item.version
  value := item.value
  estimate := item.estimate
  dependencyOn := if item.estimate then some item.version else none

structure ValidationResult where
  valid : Bool
  failedKey : String := ""
  expected : ReadDescriptor := {}
  observed : ReadDescriptor := {}
  dependency : Option Version := none
deriving DecidableEq, Repr

structure MVMemory where
  values : GoMap String (List VersionedValue) := ∅

namespace MVMemory

def items (m : MVMemory) (key : String) : List VersionedValue := m.values.get key

def upsertLocked (m : MVMemory) (key : String) (item : VersionedValue) : MVMemory where
  values := m.values.put key (upsert VersionedValue.version item (m.values.get key))

def write (m : MVMemory) (key : String) (version : Version) (value : String) : MVMemory :=
  m.upsertLocked key { version := version, value := value }

def markEstimate (m : MVMemory) (key : String) (version : Version) : MVMemory :=
  m.upsertLocked key { version := version, estimate := true }

def clearTxnVersions (m : MVMemory) (key : String) (txn : Nat) : MVMemory :=
  let items := m.values.get key
  if items = [] then m
  else
    let kept := items.filter fun item => item.version.txn ≠ txn
    if kept = [] then { values := m.values.delete key } else { values := m.values.put key kept }

def read (m : MVMemory) (key : String) (reader : Nat) (base : GoMap String String) :
    ReadDescriptor :=
  match (m.values.get key).reverse.find? fun item => item.version.txn < reader with
  | some item => item.descriptor key
  | none => { key := key, fromBase := true, value := base.get key }

end MVMemory

def sameRead (left right : ReadDescriptor) : Bool :=
  if left.key ≠ right.key ∨ left.fromBase ≠ right.fromBase ∨ left.value ≠ right.value ∨
      left.estimate ≠ right.estimate then false
  else if ¬ left.fromBase ∧ left.version ≠ right.version then false
  else true

def MVMemory.validate (m : MVMemory) (reader : Nat) (base : GoMap String String) :
    List ReadDescriptor → ValidationResult
  | [] => { valid := true }
  | expected :: captured =>
    let observed := m.read expected.key reader base
    if observed.estimate then
      { valid := false, failedKey := expected.key, expected := expected, observed := observed,
        dependency := observed.dependencyOn }
    else if ¬ sameRead expected observed then
      { valid := false, failedKey := expected.key, expected := expected, observed := observed }
    else m.validate reader base captured

/-! ## Runs -/

inductive Call where
  | write (key : String) (version : Version) (value : String)
  | markEstimate (key : String) (version : Version)
  | clearTxnVersions (key : String) (txn : Nat)

def MVMemory.call (m : MVMemory) : Call → MVMemory
  | .write key version value => m.write key version value
  | .markEstimate key version => m.markEstimate key version
  | .clearTxnVersions key txn => m.clearTxnVersions key txn

def MVMemory.run (calls : List Call) : MVMemory :=
  calls.foldl MVMemory.call {}

/-- What the memory is for: under a key and a version, the entry last recorded there. -/
abbrev Store := String → Version → Option VersionedValue

namespace Store

def put (st : Store) (key : String) (item : VersionedValue) : Store := fun k v =>
  if k = key ∧ v = item.version then some item else st k v

def clear (st : Store) (key : String) (txn : Nat) : Store := fun k v =>
  if k = key ∧ v.txn = txn then none else st k v

def call (st : Store) : Call → Store
  | .write key version value => st.put key { version := version, value := value }
  | .markEstimate key version => st.put key { version := version, estimate := true }
  | .clearTxnVersions key txn => st.clear key txn

def run (calls : List Call) : Store :=
  calls.foldl call fun _ _ => none

end Store

/-- Each list of the memory is in the order of versions and holds the entries of the store. -/
structure Represents (m : MVMemory) (st : Store) : Prop where
  ascends : ∀ key, Ascends VersionedValue.version (m.items key)
  mem_iff : ∀ key item, item ∈ m.items key ↔ st key item.version = some item

namespace Represents

variable {m : MVMemory} {st : Store} (h : Represents m st) (key : String)

include h

lemma upsertLocked (item : VersionedValue) : Represents (m.upsertLocked key item)
    (st.put key item) := by
  have hitems : ∀ k, (m.upsertLocked key item).items k =
      if k = key then upsert VersionedValue.version item (m.items key) else m.items k :=
    fun k => GoMap.get_put _ _ _ _
  constructor
  · intro k
    rw [hitems]
    split
    · exact ascending_upsert (h.ascends key)
    · exact h.ascends k
  · intro k other
    rw [hitems]
    by_cases hk : k = key
    · subst hk
      rw [if_pos rfl, mem_upsert (h.ascends k), h.mem_iff]
      -- only `item` itself is left under its version, in the list as in the store
      by_cases hv : other.version = item.version
      · simp [Store.put, hv, eq_comm]
      · have hne : other ≠ item := fun heq => hv (heq ▸ rfl)
        simp [Store.put, hv, hne]
    · simp [Store.put, hk, h.mem_iff]

lemma clearTxnVersions (txn : Nat) : Represents (m.clearTxnVersions key txn)
    (st.clear key txn) := by
  have hitems : ∀ k, (m.clearTxnVersions key txn).items k =
      if k = key then (m.items k).filter (fun item => item.version.txn ≠ txn) else m.items k := by
    intro k
    unfold MVMemory.clearTxnVersions MVMemory.items
    -- a key that is not in the map has the empty list
    have hnil : (default : List VersionedValue) = [] := rfl
    grind
  constructor
  · intro k
    rw [hitems]
    split
    · exact (h.ascends k).filter _
    · exact h.ascends k
  · intro k item
    rw [hitems]
    by_cases hk : k = key <;> by_cases ht : item.version.txn = txn <;>
      simp [Store.clear, hk, ht, h.mem_iff]

end Represents

lemma represents_run (calls : List Call) : Represents (MVMemory.run calls) (Store.run calls) := by
  induction calls using List.reverseRecOn with
  | nil => exact ⟨fun _ => Pairwise.nil, fun _ _ => iff_of_false not_mem_nil (by simp [Store.run])⟩
  | append_singleton calls c ih =>
    simp only [MVMemory.run, Store.run, foldl_append, foldl_cons, foldl_nil]
    cases c with
    | write key version value => exact ih.upsertLocked key _
    | markEstimate key version => exact ih.upsertLocked key _
    | clearTxnVersions key txn => exact ih.clearTxnVersions key txn

/-! ## Reads -/

/-- What Read answers: the entry of the greatest version below `reader`, or else the base value. -/
def ReadsLatest (items : List VersionedValue) (key : String) (reader : Nat)
    (base : GoMap String String) (r : ReadDescriptor) : Prop :=
  (∃ item ∈ items, item.version.txn < reader ∧
    (∀ other ∈ items, other.version.txn < reader → other.version ≤ item.version) ∧
      r = item.descriptor key) ∨
  ((∀ item ∈ items, reader ≤ item.version.txn) ∧
    r = { key := key, fromBase := true, value := base.get key })

lemma readsLatest_read {m : MVMemory} {key : String}
    (h : Ascends VersionedValue.version (m.items key)) (reader : Nat) (base : GoMap String String) :
    ReadsLatest (m.items key) key reader base (m.read key reader base) := by
  unfold MVMemory.read
  cases hfind : (m.values.get key).reverse.find? fun item => item.version.txn < reader with
  | some item =>
    obtain ⟨hmem, hlt, hmax⟩ := find?_reverse h hfind
    exact .inl ⟨item, hmem, by simpa using hlt, by simpa using hmax, rfl⟩
  | none =>
    refine .inr ⟨?_, rfl⟩
    intro item hitem
    simpa using find?_eq_none.1 hfind item (mem_reverse.2 hitem)

/-- Where a read was answered: at a version, or at the base state. -/
def ReadDescriptor.source (r : ReadDescriptor) : Option Version :=
  if r.fromBase then none else some r.version

/-- Both reads met the same version, or the base state, with the same value, and no estimate. -/
def ReadDescriptor.Repeats (expected observed : ReadDescriptor) : Prop :=
  observed.source = expected.source ∧ observed.value = expected.value ∧
    observed.estimate = false ∧ expected.estimate = false

lemma read_key (m : MVMemory) (key : String) (reader : Nat) (base : GoMap String String) :
    (m.read key reader base).key = key := by
  unfold MVMemory.read
  split <;> rfl

lemma sameRead_iff {expected observed : ReadDescriptor} (hkey : observed.key = expected.key)
    (hestimate : observed.estimate = false) :
    sameRead expected observed = true ↔ expected.Repeats observed := by
  unfold sameRead ReadDescriptor.Repeats ReadDescriptor.source
  grind

lemma validate_valid_iff (m : MVMemory) (reader : Nat) (base : GoMap String String)
    (captured : List ReadDescriptor) :
    (m.validate reader base captured).valid = true ↔
      ∀ expected ∈ captured, expected.Repeats (m.read expected.key reader base) := by
  induction captured with
  | nil => simp [MVMemory.validate]
  | cons expected captured ih =>
    rw [forall_mem_cons, ← ih, MVMemory.validate]
    -- an estimate is refused before the reads are compared
    cases hestimate : (m.read expected.key reader base).estimate with
    | true => simp [hestimate, ReadDescriptor.Repeats]
    | false =>
      rw [← sameRead_iff (read_key m _ reader base) hestimate]
      cases sameRead expected (m.read expected.key reader base) <;> simp

/-- After any calls, each list is in strict order of transaction and incarnation and holds for every
version what was last recorded there and not cleared since; Read answers from the latest
incarnation of the greatest transaction below the reader; Validate accepts exactly the reads that
would be answered alike, from entries that are no estimates. -/
theorem mvMemory_faithful (calls : List Call) (key : String) (reader : Nat)
    (base : GoMap String String) (captured : List ReadDescriptor) :
    ((MVMemory.run calls).items key).Pairwise (fun a b => a.version < b.version) ∧
    (∀ item, item ∈ (MVMemory.run calls).items key ↔ Store.run calls key item.version = some item) ∧
    ReadsLatest ((MVMemory.run calls).items key) key reader base
      ((MVMemory.run calls).read key reader base) ∧
    (((MVMemory.run calls).validate reader base captured).valid = true ↔ ∀ expected ∈ captured,
        expected.Repeats ((MVMemory.run calls).read expected.key reader base)) := by
  have h := represents_run calls
  exact ⟨h.ascends key, h.mem_iff key, readsLatest_read (h.ascends key) reader base,
    validate_valid_iff _ reader base captured⟩

/-- An aborted transaction that writes its key again, and the read of a later transaction that its
first incarnation answered. -/
theorem mvMemory_keeps_incarnations :
    ¬ ((MVMemory.run [.write "k" ⟨1, 0⟩ "9", .markEstimate "k" ⟨1, 0⟩,
      .write "k" ⟨1, 1⟩ "8"]).items "k").Pairwise (fun a b => a.version.txn < b.version.txn) ∧
    ((MVMemory.run [.write "k" ⟨1, 0⟩ "9", .markEstimate "k" ⟨1, 0⟩]).read "k" 2 ∅).source =
      ((MVMemory.run [.write "k" ⟨1, 0⟩ "9"]).read "k" 2 ∅).source ∧
    ((MVMemory.run [.write "k" ⟨1, 0⟩ "9", .markEstimate "k" ⟨1, 0⟩]).validate 2 ∅
      [(MVMemory.run [.write "k" ⟨1, 0⟩ "9"]).read "k" 2 ∅]).valid = false := by
  decide

end ChainLab.BlockSTM
