import ChainLab.Data.Result
import ChainLab.Execution.Groundhog

/-!
# Interpreted transactions

What `interpretTransaction` hands to the reservation table.  A transaction names no empty key; its
integer changes fit in an `int64`; the changes of a key come in the order in which the table applies
them, withdrawals and limit increases first.
-/

namespace ChainLab.Execution.Groundhog

open List Result

/-! ## Kinds -/

inductive Shape where
  | integer
  | bytes
  | orderedSet
deriving DecidableEq, Repr

def Change.shape : Change → Shape
  | .integerAdd _ _ => .integer
  | .bytesSet _ => .bytes
  | .orderedSetInsert _ _ | .orderedSetClear _ | .orderedSetGrow _ => .orderedSet

/-! ## Checked arithmetic -/

/-- The values of an `int64`. -/
def InRange (n : Int) : Prop := -Text.maxInt64 - 1 ≤ n ∧ n ≤ Text.maxInt64

instance (n : Int) : Decidable (InRange n) := inferInstanceAs (Decidable (_ ∧ _))

lemma inRange_wrap (n : Int) : InRange (Text.wrap n) := by
  have hlo : -((2 ^ 64 : Nat) / 2 : Int) ≤ Int.bmod n (2 ^ 64) := Int.le_bmod (by decide)
  have hhi : Int.bmod n (2 ^ 64) ≤ ((2 ^ 64 : Nat) - 1) / 2 := Int.bmod_le (by decide)
  unfold InRange Text.wrap Text.maxInt64
  omega

variable {left right value : Int} {a : Accumulation}

lemma addInt64_eq_some (hl : InRange left) (hr : InRange right) :
    addInt64 left right = some value ↔ value = left + right ∧ InRange (left + right) := by
  simp only [addInt64]
  by_cases hsum : InRange (left + right)
  · rw [Text.wrap_of_range hsum.1 hsum.2]
    have hno : ¬ ((0 < right ∧ left + right < left) ∨ (right < 0 ∧ left < left + right)) := by omega
    rw [if_neg hno]
    simp [hsum, eq_comm]
  · -- out of range the sum wraps to the other side
    have hwrap := inRange_wrap (left + right)
    have hmod : ∃ k : Int, Text.wrap (left + right) = left + right + k * 2 ^ 64 := by
      have h := Int.bmod_add_bdiv (left + right) (2 ^ 64)
      refine ⟨-Int.bdiv (left + right) (2 ^ 64), ?_⟩
      unfold Text.wrap
      push_cast at h ⊢
      linarith
    have hyes : (0 < right ∧ Text.wrap (left + right) < left) ∨
        (right < 0 ∧ left < Text.wrap (left + right)) := by
      unfold InRange Text.maxInt64 at *
      omega
    rw [if_pos hyes]
    simp [hsum]

lemma addInt64_bounds (h : addInt64 left right = some value) :
    InRange value ∧ (right ≤ 0 → value ≤ left ∨ right = 0) ∧ (0 ≤ right → left ≤ value ∨ right = 0)
    := by
  simp only [addInt64] at h
  split at h
  · cases h
  next hno =>
  cases h
  refine ⟨inRange_wrap _, ?_, ?_⟩
  · intro hr
    omega
  · intro hr
    omega

/-! ## Collected changes -/

variable {m : Modification} {next parts : Collected} {input out : List Modification}
    {err key : String}

lemma collect_others (h : collect parts m = .ok next) :
    next.others = if m.change.shape = .orderedSet then parts.others ++ [m] else parts.others := by
  unfold collect at h
  cases hchange : m.change with
  | integerAdd baseInt delta =>
    simp only [hchange, collectInteger] at h
    split at h
    · cases h
    split at h
    · cases h
    · cases h
      rfl
  | bytesSet bytes =>
    simp only [hchange] at h
    split at h
    · split at h
      · cases h
      · cases h
        rfl
    · cases h
      rfl
  | orderedSetInsert tag hash | orderedSetClear threshold | orderedSetGrow increase =>
    simp only [hchange] at h
    cases h
    rfl

lemma foldlM_collect_others {last : Collected} (h : input.foldlM collect parts = .ok last) :
    last.others = parts.others ++ input.filter fun m => m.change.shape = .orderedSet := by
  induction input generalizing parts with
  | nil =>
    cases h
    simp
  | cons m input ih =>
    rw [foldlM_cons, bind_eq_ok] at h
    obtain ⟨next, hnext, hlast⟩ := h
    rw [ih hlast, collect_others hnext]
    by_cases hm : m.change.shape = .orderedSet
    · simp [hm]
    · simp [hm]

lemma mem_normalizeModifications (h : normalizeModifications input = .ok out) (hm : m ∈ input)
    (hshape : m.change.shape = .orderedSet) : m ∈ out := by
  unfold normalizeModifications at h
  simp only [bind_eq_ok] at h
  obtain ⟨parts, hparts, ints, -, hout⟩ := h
  cases hout
  rw [mem_insertionSort]
  have hoths : m ∈ parts.others := by
    rw [foldlM_collect_others hparts]
    exact mem_append_right _ (mem_filter.2 ⟨hm, by simpa using hshape⟩)
  exact mem_append_right _ hoths

/-! ## Errors have a text -/

lemma collect_error_ne (h : collect parts m = .error err) : err ≠ "" := by
  unfold collect at h
  cases hchange : m.change with
  | integerAdd baseInt delta =>
    simp only [hchange, collectInteger] at h
    split at h
    · cases h
      exact append_ne_empty (by decide)
    · split at h
      · cases h
        exact append_ne_empty (by decide)
      · cases h
  | bytesSet bytes =>
    simp only [hchange] at h
    split at h
    · split at h
      · cases h
        exact append_ne_empty (by decide)
      · cases h
    · cases h
  | orderedSetInsert tag hash | orderedSetClear threshold
  | orderedSetGrow increase => simp [hchange] at h

lemma Accumulation.modifications_error_ne (h : a.modifications key = .error err) : err ≠ "" := by
  unfold Accumulation.modifications at h
  split at h
  · cases h
    exact append_ne_empty (by decide)
  · split at h
    · cases h
      exact append_ne_empty (by decide)
    · split at h
      · cases h
      · cases h

lemma normalizeModifications_error_ne (h : normalizeModifications input = .error err) :
    err ≠ "" := by
  unfold normalizeModifications at h
  cases hparts : input.foldlM collect {} with
  | error err' =>
    rw [hparts] at h
    cases h
    obtain ⟨parts, m, -, herr⟩ := exists_of_foldlM_error hparts
    exact collect_error_ne herr
  | ok parts =>
    rw [hparts, ok_bind] at h
    cases hints : parts.ints.entries.mapM fun entry => entry.2.modifications entry.1 with
    | error err' =>
      rw [hints] at h
      cases h
      obtain ⟨entry, -, herr⟩ := exists_of_mapM_error hints
      exact Accumulation.modifications_error_ne herr
    | ok ints =>
      rw [hints] at h
      cases h

/-! ## The parts of a normal form -/

/-- What an accumulation stands for: a base of the input, debits and credits apart. -/
structure Accumulation.Of (input : List Modification) (key : String) (a : Accumulation) : Prop where
  base : ∃ delta, (⟨key, .integerAdd a.baseInt delta⟩ : Modification) ∈ input
  negative : InRange a.negative ∧ a.negative ≤ 0
  positive : InRange a.positive ∧ 0 ≤ a.positive

structure Collected.Of (input : List Modification) (parts : Collected) : Prop where
  ints : ∀ key a, parts.ints.find key = some a → a.Of input key
  bytes : ∀ key bytes, parts.bytesValues.find key = some bytes →
    (⟨key, .bytesSet bytes⟩ : Modification) ∈ input
  others : ∀ m ∈ parts.others, m ∈ input ∧ m.change.shape = .orderedSet

lemma Collected.Of.collectInteger {baseInt delta : Int}
    (hm : (⟨key, .integerAdd baseInt delta⟩ : Modification) ∈ input) (h : parts.Of input)
    (hnext : Groundhog.collectInteger parts key baseInt delta = .ok next) : next.Of input := by
  -- an accumulation that is not there yet starts at zero
  have hstart : (InRange (parts.ints.get key).negative ∧ (parts.ints.get key).negative ≤ 0) ∧
      InRange (parts.ints.get key).positive ∧ 0 ≤ (parts.ints.get key).positive := by
    cases hfind : parts.ints.find key with
    | none =>
      simp only [GoMap.get, hfind]
      decide
    | some a =>
      have ha := h.ints key a hfind
      rw [GoMap.get_of_find hfind]
      exact ⟨ha.negative, ha.positive⟩
  unfold Groundhog.collectInteger at hnext
  dsimp only at hnext
  split at hnext
  · cases hnext
  split at hnext
  · cases hnext
  next a ha =>
  cases hnext
  refine ⟨?_, h.bytes, h.others⟩
  intro key' a' hfind
  obtain ⟨rfl, rfl⟩ | hfind := GoMap.of_find_put hfind
  · split at ha
    · next hdelta =>
      obtain ⟨value, hval, rfl⟩ := Option.map_eq_some_iff.1 ha
      have hbounds := addInt64_bounds hval
      exact ⟨⟨delta, hm⟩, ⟨hbounds.1, by simp only at *; omega⟩, hstart.2⟩
    · next hdelta =>
      obtain ⟨value, hval, rfl⟩ := Option.map_eq_some_iff.1 ha
      have hbounds := addInt64_bounds hval
      refine ⟨⟨delta, hm⟩, hstart.1, hbounds.1, ?_⟩
      rcases hbounds.2.2 (by omega) with hle | hzero
      · exact le_trans hstart.2.2 hle
      subst hzero
      have := (addInt64_eq_some hstart.2.1 (by decide)).1 hval
      simp only at *
      omega
  · exact h.ints key' a' hfind

lemma Collected.Of.collect (hm : m ∈ input) (h : parts.Of input)
    (hnext : Groundhog.collect parts m = .ok next) : next.Of input := by
  obtain ⟨key, change⟩ := m
  have hoths : ∀ m' ∈ parts.others ++ [⟨key, change⟩], change.shape = .orderedSet →
      m' ∈ input ∧ m'.change.shape = .orderedSet := by
    intro m' hm' hshape
    rcases mem_append.1 hm' with hold | hnew
    · exact h.others m' hold
    · rw [mem_singleton.1 hnew]
      exact ⟨hm, hshape⟩
  cases change with
  | integerAdd baseInt delta => exact h.collectInteger hm hnext
  | bytesSet bytes =>
    have hput : next = { parts with bytesValues := parts.bytesValues.put key bytes } := by
      unfold Groundhog.collect at hnext
      simp only at hnext
      split at hnext
      · split at hnext
        · cases hnext
        · cases hnext
          rfl
      · cases hnext
        rfl
    subst hput
    refine ⟨h.ints, ?_, h.others⟩
    intro key' bytes' hfind
    obtain ⟨rfl, rfl⟩ | hfind := GoMap.of_find_put hfind
    · exact hm
    · exact h.bytes key' bytes' hfind
  | orderedSetInsert tag hash | orderedSetClear threshold | orderedSetGrow increase =>
    cases hnext
    exact ⟨h.ints, h.bytes, fun m' hm' => hoths m' hm' rfl⟩

lemma Accumulation.mem_modifications (h : a.modifications key = .ok out) (hm : m ∈ out) :
    ∃ delta, m = ⟨key, .integerAdd a.baseInt delta⟩ ∧
      (delta = 0 ∨ delta = a.negative ∨ delta = a.positive) := by
  unfold Accumulation.modifications at h
  split at h
  · cases h
  split at h
  · cases h
  split at h
  · cases h
    exact ⟨0, by simpa using hm, .inl rfl⟩
  · cases h
    rcases mem_append.1 hm with hneg | hpos
    · split at hneg
      · exact ⟨_, by simpa using hneg, .inr (.inl rfl)⟩
      · cases hneg
    · split at hpos
      · exact ⟨_, by simpa using hpos, .inr (.inr rfl)⟩
      · cases hpos

lemma normalizeModifications_of (h : normalizeModifications input = .ok out) (hm : m ∈ out) :
    (m ∈ input ∧ m.change.shape ≠ .integer) ∨ ∃ baseInt delta delta',
      m = ⟨m.key, .integerAdd baseInt delta⟩ ∧ InRange delta ∧
        (⟨m.key, .integerAdd baseInt delta'⟩ : Modification) ∈ input := by
  unfold normalizeModifications at h
  simp only [bind_eq_ok] at h
  obtain ⟨parts, hparts, ints, hints, hout⟩ := h
  have hof : parts.Of input := by
    refine foldlM_induction hparts ?_ fun _ m _ hm hof hnext => hof.collect hm hnext
    exact ⟨by simp, by simp, by simp⟩
  cases hout
  rw [mem_insertionSort, mem_append, mem_append] at hm
  rcases hm with (hint | hbytes) | hother
  · right
    obtain ⟨l, hl, hml⟩ := mem_flatten.1 hint
    obtain ⟨entry, hent, hmods⟩ := exists_of_mem_mapM hints hl
    have ha := hof.ints entry.1 entry.2 (GoMap.find_of_mem_entries hent)
    obtain ⟨delta, rfl, hdelta⟩ := Accumulation.mem_modifications hmods hml
    obtain ⟨delta', hmem⟩ := ha.base
    refine ⟨_, delta, delta', rfl, ?_, hmem⟩
    rcases hdelta with rfl | rfl | rfl
    · decide
    · exact ha.negative.1
    · exact ha.positive.1
  · left
    obtain ⟨entry, hent, rfl⟩ := mem_map.1 hbytes
    exact ⟨hof.bytes entry.1 entry.2 (GoMap.find_of_mem_entries hent), by simp [Change.shape]⟩
  · left
    have hm := hof.others m hother
    exact ⟨hm.1, by simp [hm.2]⟩

/-! ## Interpretation -/

section

variable {digests : Digests} {e : GroundhogExecutor} {shardID : String} {base : Snapshot}
  {item : SignedTransaction}

lemma interpretAccesses_induction {P : Modification → Prop} {start : Interpretation}
    (hstart : ∀ ms, start.2 = .ok ms → ∀ m ∈ ms, P m)
    (hacc : ∀ access ∈ item.accessList, access.key ≠ "" → ∀ ms,
      interpretAccess digests shardID base item access = .ok ms → ∀ m ∈ ms, P m) :
    ∀ ms, (interpretAccesses digests shardID base item start).2 = .ok ms → ∀ m ∈ ms, P m := by
  unfold interpretAccesses
  generalize item.accessList = accesses at hacc ⊢
  induction accesses generalizing start with
  | nil => exact hstart
  | cons access accesses ih =>
    refine ih ?_ fun access' hacc' => hacc access' (mem_cons_of_mem _ hacc')
    intro ms hms m hm
    cases hst : start.2 with
    | error err => simp [hst] at hms
    | ok before =>
      simp only [hst] at hms
      split at hms
      · exact hstart before hst m (Except.ok.inj hms ▸ hm)
      next hkey =>
      obtain ⟨added, hadded, rfl⟩ := map_eq_ok.1 hms
      rcases mem_append.1 hm with hold | hnew
      · exact hstart before hst m hold
      · exact hacc access (by simp) hkey added hadded m hnew

def rawModifications (digests : Digests) (e : GroundhogExecutor) (shardID : String)
    (base : Snapshot) (item : SignedTransaction) : Except String (List Modification) :=
  (interpretAccesses digests shardID base item
    (if isPureCommutativeDelta item.accessList || isDirectAccessTransaction item then ([], .ok [])
      else interpretTransfer e shardID base item)).2

def replayKey (sender : String) : String := "groundhog:replay:" ++ sender

variable {ms : List Modification} {access : AccessItem} {index : Nat}

lemma interpretTransfer_eq_ok (h : (interpretTransfer e shardID base item).2 = .ok ms) :
    ∃ senderBase receiverBase, 0 < item.value ∧ item.nonce ≠ Text.maxUint64 ∧
      senderBase = parseIntOr (readBase shardID base ("balance:" ++ item.sender))
        e.defaultInitialBalance ∧
      receiverBase = parseIntOr (readBase shardID base ("balance:" ++ item.receiver)) 0 ∧
      ms = [⟨"balance:" ++ item.sender, .integerAdd senderBase (Text.wrap (-item.value))⟩,
        ⟨"balance:" ++ item.receiver, .integerAdd receiverBase item.value⟩,
        ⟨replayKey item.sender, .orderedSetInsert (item.nonce + 1) item.txID⟩] := by
  unfold interpretTransfer at h
  split at h
  · cases h
  next hval =>
  simp only at h
  split at h
  · cases h
  split at h
  · cases h
  next hnonce =>
  cases h
  exact ⟨_, _, by omega, hnonce, rfl, rfl, rfl⟩

variable {m : Modification} {err : String}

lemma interpretAccess_key (h : interpretAccess digests shardID base item access = .ok ms)
    (hm : m ∈ ms) : m.key = access.key := by
  unfold interpretAccess at h
  split at h
  · cases h
    cases hm
  · cases hmode : access.mode with
    | commutativeDelta =>
      simp only [hmode] at h
      split at h
      · cases h
      · cases h
        rw [mem_singleton.1 hm]
    | write | readWrite =>
      simp only [hmode] at h
      obtain ⟨change, -, rfl⟩ := map_eq_ok.1 h
      rw [mem_singleton.1 hm]
    | read | unknown =>
      simp only [hmode] at h
      cases h
      cases hm

lemma rawModifications_key_ne {raw : List Modification}
    (h : rawModifications digests e shardID base item = .ok raw) (hm : m ∈ raw) : m.key ≠ "" := by
  refine interpretAccesses_induction (P := fun m => m.key ≠ "") ?_ ?_ raw h m hm
  · intro ms hms m hm
    split at hms
    · cases hms
      cases hm
    · obtain ⟨_, _, -, -, -, -, rfl⟩ := interpretTransfer_eq_ok hms
      rcases mem_cons.1 hm with rfl | hm
      · exact append_ne_empty (by decide)
      rcases mem_cons.1 hm with rfl | hm
      · exact append_ne_empty (by decide)
      · rw [mem_singleton.1 hm]
        exact append_ne_empty (by decide)
  · intro access _ hkey ms hms m hm
    rw [interpretAccess_key hms hm]
    exact hkey

def isTransfer (item : SignedTransaction) : Bool :=
  !(isPureCommutativeDelta item.accessList || isDirectAccessTransaction item)

lemma interpretAccesses_spec (start : Interpretation) : (∀ err, start.2 = .error err →
        (interpretAccesses digests shardID base item start).2 = .error err) ∧
      ∀ before, start.2 = .ok before →
        (∃ access err, interpretAccess digests shardID base item access = .error err ∧
            (interpretAccesses digests shardID base item start).2 = .error err) ∨
          ∃ added,
            (interpretAccesses digests shardID base item start).2 = .ok (before ++ added) := by
  unfold interpretAccesses
  generalize item.accessList = accesses
  induction accesses generalizing start with
  | nil =>
    refine ⟨fun err herr => herr, fun before hbef => .inr ⟨[], ?_⟩⟩
    simpa using hbef
  | cons access accesses ih =>
    rw [foldl_cons]
    constructor
    · intro err herr
      simp only [herr]
      exact (ih (start.1, .error err)).1 err rfl
    · intro before hbef
      simp only [hbef]
      split
      · exact (ih (start.1, .ok before)).2 before rfl
      cases hadded : interpretAccess digests shardID base item access with
      | error err =>
        left
        exact ⟨access, err, hadded,
          (ih (observeBase shardID base start.1 access.key, .error err)).1 err rfl⟩
      | ok added =>
        rcases (ih (observeBase shardID base start.1 access.key, .ok (before ++ added))).2 _ rfl
          with herr | ⟨more, hmore⟩
        · exact .inl herr
        · exact .inr ⟨added ++ more, by rw [← append_assoc]; exact hmore⟩

lemma interpretAccess_error_ne (h : interpretAccess digests shardID base item access = .error err) :
    err ≠ "" := by
  have hwrite : ∀ {err}, (interpretWrite digests item access).map
      (fun change => ([⟨access.key, change⟩] : List Modification)) = .error err → err ≠ "" := by
    intro err herr
    unfold interpretWrite at herr
    repeat' split at herr
    all_goals cases herr
    all_goals decide
  unfold interpretAccess at h
  split at h
  · cases h
  cases hmode : access.mode with
  | commutativeDelta =>
    simp only [hmode] at h
    split at h
    · cases h
      decide
    · cases h
  | write | readWrite =>
    simp only [hmode] at h
    exact hwrite h
  | read | unknown => simp [hmode] at h

lemma interpretTransfer_error_ne (h : (interpretTransfer e shardID base item).2 = .error err) :
    err ≠ "" := by
  unfold interpretTransfer at h
  split at h
  · cases h
    decide
  · simp only at h
    split at h
    · cases h
      decide
    · split at h
      · cases h
        decide
      · cases h

lemma rawModifications_error_ne (h : rawModifications digests e shardID base item = .error err) :
    err ≠ "" := by
  unfold rawModifications at h
  generalize hstart : (if isPureCommutativeDelta item.accessList || isDirectAccessTransaction item
    then (([], .ok []) : Interpretation) else interpretTransfer e shardID base item) = start at h
  cases hres : start.2 with
  | error err' =>
    rw [(interpretAccesses_spec start).1 err' hres] at h
    cases h
    split at hstart
    · subst hstart
      cases hres
    · subst hstart
      exact interpretTransfer_error_ne hres
  | ok before =>
    rcases (interpretAccesses_spec start).2 before hres with ⟨access, err', hacc, herr⟩ | ⟨added,
        hadded⟩
    · rw [herr] at h
      cases h
      exact interpretAccess_error_ne hacc
    · rw [hadded] at h
      cases h

lemma interpretTransaction_cases (index : Nat) {out : Attempt}
    (h : interpretTransaction digests e shardID base index item = out) :
    (out.terminalError ≠ "" ∧ out.modifications = []) ∨
      (out.terminalError = "" ∧ ∃ raw, rawModifications digests e shardID base item = .ok raw ∧
        normalizeModifications raw = .ok out.modifications) := by
  subst h
  unfold interpretTransaction
  split
  · left
    exact ⟨by simp, rfl⟩
  · cases hraw : rawModifications digests e shardID base item with
    | error err =>
      have hne := rawModifications_error_ne hraw
      unfold rawModifications at hraw
      simp only [hraw, Except.bind]
      exact .inl ⟨hne, trivial⟩
    | ok raw =>
      unfold rawModifications at hraw
      cases hnormal : normalizeModifications raw with
      | error err =>
        simp only [hraw, Except.bind, hnormal]
        exact .inl ⟨normalizeModifications_error_ne hnormal, trivial⟩
      | ok out =>
        simp only [hraw, Except.bind, hnormal]
        exact .inr ⟨trivial, raw, rfl, hnormal⟩

lemma interpretTransaction_key_ne
    (hm : m ∈ (interpretTransaction digests e shardID base index item).modifications) :
    m.key ≠ "" := by
  rcases interpretTransaction_cases index rfl with ⟨-, hnil⟩ | ⟨-, raw, hraw, hnormal⟩
  · rw [hnil] at hm
    cases hm
  rcases normalizeModifications_of hnormal hm with ⟨hmem, -⟩ | ⟨_, _, delta', -, -, hmem⟩
  · exact rawModifications_key_ne hraw hmem
  · have hkey := rawModifications_key_ne hraw hmem
    exact hkey

lemma mem_modifications_of_transfer (htransfer : isTransfer item = true)
    (hok : (interpretTransaction digests e shardID base index item).terminalError = "") :
    (⟨replayKey item.sender, .orderedSetInsert (item.nonce + 1) item.txID⟩ : Modification) ∈
      (interpretTransaction digests e shardID base index item).modifications := by
  rcases interpretTransaction_cases index rfl with ⟨herr, -⟩ | ⟨-, raw, hraw, hnormal⟩
  · exact absurd hok herr
  apply mem_normalizeModifications hnormal _ rfl
  have hnot : ¬ (isPureCommutativeDelta item.accessList || isDirectAccessTransaction item) =
      true := by
    simpa [isTransfer] using htransfer
  rw [rawModifications, if_neg hnot] at hraw
  cases hstart : (interpretTransfer e shardID base item).2 with
  | error err =>
    rw [(interpretAccesses_spec _).1 err hstart] at hraw
    cases hraw
  | ok before =>
    obtain ⟨_, _, -, -, -, -, rfl⟩ := interpretTransfer_eq_ok hstart
    rcases (interpretAccesses_spec _).2 _ hstart with ⟨_, _, -, herr⟩ | ⟨added, hadded⟩
    · rw [herr] at hraw
      cases hraw
    · rw [hadded] at hraw
      rw [← Except.ok.inj hraw]
      simp

end

end ChainLab.Execution.Groundhog
