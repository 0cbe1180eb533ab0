import ChainLab.Execution.BatchSI.Plan

/-!
# Batches with one writer of each address

Both partitioners of Batch-SI leave every address at most one writer in a batch, and put no
transaction into two batches (`wellSplit_partitions`).  The argument is the same for both: a batch
is closed to a key once it has a writer of it (`Split`), and a transaction joins a batch that is
open to all its keys.
-/

namespace ChainLab.Execution.BatchSI

open List GoMap

variable {T : Type}

/-! ## Batches with one writer of each address -/

def OneWriter (txs : List (TxDescriptor T)) : Prop :=
  txs.Pairwise fun a b => ∀ key ∈ a.writeKeys, key ∉ b.writeKeys

abbrev ids (txs : List (TxDescriptor T)) : List String := txs.map TxDescriptor.txID

/-- The batches so far, of the transactions `done`.  `taken key n` says that batch `n` is closed to
further writers of `key`. -/
structure Split (taken : String → Nat → Prop) (batches : Batches T) (done : List (TxDescriptor T)) :
    Prop where
  oneWriter : ∀ n, OneWriter (batches.get n)
  taken : ∀ n, ∀ d ∈ batches.get n, ∀ key ∈ d.writeKeys, taken key n
  mem : ∀ n, ∀ d ∈ batches.get n, d ∈ done
  distinct : ∀ n, (ids (batches.get n)).Nodup
  apart : ∀ n m, n ≠ m → ∀ d ∈ batches.get n, d.txID ∉ ids (batches.get m)

lemma Split.empty (taken : String → Nat → Prop) : Split taken (∅ : Batches T) [] where
  oneWriter := fun _ => List.Pairwise.nil
  taken := fun _ _ hd => nomatch hd
  mem := fun _ _ hd => nomatch hd
  distinct := fun _ => nodup_nil
  apart := fun _ _ _ _ hd => nomatch hd

lemma get_add (batches : Batches T) (n m : Nat) (item : TxDescriptor T) :
    (batches.add n item).get m =
      if m = n then batches.get n ++ [item] else batches.get m :=
  get_put batches n m _

variable {done items : List (TxDescriptor T)} {item : TxDescriptor T} {s : WRBPState T}
  {maximumBatch : Nat} {keys : List String}

variable {batches : Batches T} {taken : String → Nat → Prop} {best candidate : Nat} {key : String}

lemma Split.add {taken' : String → Nat → Prop} {n : Nat} (h : Split taken batches done)
    (hopen : ∀ key ∈ item.writeKeys, ¬ taken key n) (hkeep : ∀ key m, taken key m → taken' key m)
    (hclose : ∀ key ∈ item.writeKeys, taken' key n) (hfresh : item.txID ∉ ids done) :
    Split taken' (batches.add n item) (done ++ [item]) := by
  have hnew : ∀ m, item.txID ∉ ids (batches.get m) := by
    intro m hin
    obtain ⟨d, hd, he⟩ := mem_map.1 hin
    exact hfresh (mem_map.2 ⟨d, h.mem m d hd, he⟩)
  -- the members of a batch are old, or the item that joins batch `n`
  have hcases : ∀ m d, d ∈ (batches.add n item).get m → d ∈ batches.get m ∨ (d = item ∧ m = n) := by
    intro m d hd
    rw [get_add] at hd
    split at hd
    · next hmn =>
      rcases mem_append.1 hd with hd | hd
      · exact .inl (hmn ▸ hd)
      · exact .inr ⟨mem_singleton.1 hd, hmn⟩
    · exact .inl hd
  refine ⟨?_, ?_, ?_, ?_, ?_⟩
  · intro m
    rw [get_add]
    split
    · refine pairwise_append.2 ⟨h.oneWriter n, pairwise_singleton _ _, ?_⟩
      intro d hd other hother key hkey hin
      rw [mem_singleton.1 hother] at hin
      exact hopen key hin (h.taken n d hd key hkey)
    · exact h.oneWriter m
  · intro m d hd key hkey
    rcases hcases m d hd with hd | ⟨rfl, rfl⟩
    · exact hkeep key m (h.taken m d hd key hkey)
    · exact hclose key hkey
  · intro m d hd
    rcases hcases m d hd with hd | ⟨rfl, rfl⟩
    · exact mem_append_left _ (h.mem m d hd)
    · simp
  · intro m
    rw [get_add]
    split
    · rw [ids, map_append, nodup_append]
      refine ⟨h.distinct n, by simp, ?_⟩
      intro id hid other hother he
      simp only [map_cons, map_nil, mem_singleton] at hother
      exact hnew n (hother ▸ he ▸ hid)
    · exact h.distinct m
  · intro m k hmk d hd hin
    obtain ⟨other, hother, he⟩ := mem_map.1 hin
    rcases hcases m d hd with hold | ⟨rfl, rfl⟩
    · rcases hcases k other hother with hother | ⟨rfl, rfl⟩
      · exact h.apart m k hmk d hold (mem_map.2 ⟨other, hother, he⟩)
      · exact hnew m (mem_map.2 ⟨d, hold, he.symm⟩)
    · rcases hcases k other hother with hother | ⟨rfl, rfl⟩
      · exact hnew k (mem_map.2 ⟨other, hother, he⟩)
      · exact hmk rfl

structure WellSplit (items : List (TxDescriptor T)) (split : List (Partition T)) : Prop where
  oneWriter : ∀ p ∈ split, OneWriter p.txs
  mem : ∀ p ∈ split, ∀ d ∈ p.txs, d ∈ items
  distinct : ∀ p ∈ split, (ids p.txs).Nodup
  apart : split.Pairwise fun p q => ∀ d ∈ p.txs, d.txID ∉ ids q.txs

lemma Split.compactPartitions (h : Split taken batches done) :
    WellSplit done (compactPartitions batches) := by
  have hnum : ∀ p ∈ BatchSI.compactPartitions batches, p.txs = batches.get p.number := by
    intro p hp
    obtain ⟨n, -, rfl⟩ := mem_map.1 hp
    rfl
  refine ⟨?_, ?_, ?_, ?_⟩
  · exact fun p hp => hnum p hp ▸ h.oneWriter p.number
  · exact fun p hp d hd => h.mem p.number d (hnum p hp ▸ hd)
  · exact fun p hp => hnum p hp ▸ h.distinct p.number
  · refine pairwise_map.2 (List.Pairwise.filter _ ?_)
    exact (nodup_sortedKeys batches).imp fun hnm => h.apart _ _ hnm

/-! ## WRBP -/

/-- Batch `n` has a writer of `key`. -/
def Taken (s : WRBPState T) (key : String) (n : Nat) : Prop :=
  n < openBatch s.currentBatch key ∧ (s.opportunities.get key).get n = false

def Tidy (s : WRBPState T) : Prop :=
  ∀ key n, (s.opportunities.get key).get n = true → n < openBatch s.currentBatch key

variable (table : GoMap String Nat)

lemma openBatch_put (key other : String) (n : Nat) :
    openBatch (table.put key n) other = if other = key then max 1 n else openBatch table other := by
  unfold openBatch
  rw [get_put]
  split <;> rfl

lemma assignKey_spec (htidy : Tidy s) (assigned : Nat) (key : String) :
    Tidy (assignKey assigned s key) ∧
      (∀ other n, Taken (assignKey assigned s key) other n ↔ Taken s other n ∨ other = key ∧
        n = assigned) ∧ (assignKey assigned s key).batches = s.batches := by
  by_cases hlt : assigned < openBatch s.currentBatch key
  · simp only [assignKey, if_pos hlt]
    refine ⟨?_, ?_, trivial⟩
    · intro other n hfree
      rw [get_put] at hfree
      split at hfree
      · next he =>
        rw [get_delete] at hfree
        split at hfree
        · cases hfree
        · exact he ▸ htidy key n hfree
      · exact htidy other n hfree
    · intro other n
      simp only [Taken, get_put]
      split
      · next he =>
        rw [get_delete]
        split
        · next hn => simp [he, hn, hlt]
        · next hn => simp [he, hn]
      · next he => simp [he]
  · have hmax : max 1 (assigned + 1) = assigned + 1 := by omega
    simp only [assignKey, if_neg hlt]
    refine ⟨?_, ?_, trivial⟩
    · intro other n hfree
      simp only [get_put] at hfree
      simp only [openBatch_put]
      split at hfree
      · next he =>
        rw [if_pos he]
        rw [get_foldl_put] at hfree
        split at hfree
        · next hin =>
          rw [mem_range'_1] at hin
          omega
        · have hn := htidy key n hfree
          omega
      · next he =>
        rw [if_neg he]
        exact htidy other n hfree
    · intro other n
      simp only [Taken, openBatch_put, get_put]
      split
      · next he =>
        subst he
        rw [get_foldl_put, Bool.if_true_left, Bool.or_eq_false_iff, decide_eq_false_iff_not,
          mem_range'_1]
        constructor
        · rintro ⟨hn, hskip, hfree⟩
          by_cases hold : n < openBatch s.currentBatch other
          · exact .inl ⟨hold, hfree⟩
          · exact .inr ⟨rfl, by omega⟩
        · rintro (⟨hn, hfree⟩ | ⟨-, rfl⟩)
          · exact ⟨by omega, by omega, hfree⟩
          · exact ⟨by omega, by omega, Bool.eq_false_iff.2 fun hfree => hlt (htidy _ _ hfree)⟩
      · next he => simp [he]

lemma foldl_assignKey_spec (htidy : Tidy s) (assigned : Nat) (keys : List String) :
    Tidy (keys.foldl (assignKey assigned) s) ∧
      (∀ other n, Taken (keys.foldl (assignKey assigned) s) other n ↔
        Taken s other n ∨ other ∈ keys ∧ n = assigned) ∧
      (keys.foldl (assignKey assigned) s).batches = s.batches := by
  induction keys generalizing s with
  | nil => exact ⟨htidy, by simp, rfl⟩
  | cons key keys ih =>
    obtain ⟨htidy', htaken, hbat⟩ := assignKey_spec htidy assigned key
    obtain ⟨hfinal, hall, hsame⟩ := ih htidy'
    refine ⟨hfinal, fun other n => ?_, hsame.trans hbat⟩
    rw [foldl_cons, hall, htaken, mem_cons]
    tauto

def Open (s : WRBPState T) (keys : List String) (n : Nat) : Prop :=
  n = 0 ∨ ∀ key ∈ keys, ¬ Taken s key n

lemma one_le_openBatch (key : String) : 1 ≤ openBatch table key :=
  le_max_left _ _

lemma available_iff (htidy : Tidy s) (hle : openBatch s.currentBatch key ≤ maximumBatch) :
    candidateAvailable (s.opportunities.get key) (openBatch s.currentBatch key) maximumBatch
      candidate = true ↔ ¬ Taken s key candidate ∧ (candidate < maximumBatch ∨
        candidate = maximumBatch ∧ openBatch s.currentBatch key = maximumBatch) := by
  have hone := one_le_openBatch s.currentBatch key
  cases hfree : (s.opportunities.get key).get candidate with
  | true =>
    have hlt := htidy key candidate hfree
    simp only [candidateAvailable, Taken, hfree, Bool.true_or, true_iff]
    exact ⟨by simp, .inl (by omega)⟩
  | false =>
    simp only [candidateAvailable, Taken, hfree, Bool.false_or, max_eq_right hone, and_true, not_lt]
    split
    · simp only [decide_eq_true_eq]
      omega
    · simp only [Bool.and_eq_true, decide_eq_true_eq]
      omega

/-- All keys allow the candidate. -/
abbrev Available (s : WRBPState T) (keys : List String) (maximumBatch candidate : Nat) : Prop :=
  (keys.all fun key => candidateAvailable (s.opportunities.get key) (openBatch s.currentBatch key)
    maximumBatch candidate) = true

lemma consider_induction {P : Nat → Prop} (candidates : List Nat) (h : P best)
    (havail : ∀ c, Available s keys maximumBatch c → P c) :
    P (candidates.foldl (consider s keys maximumBatch) best) := by
  refine foldlRecOn candidates _ h fun best hbest c _ => ?_
  unfold consider
  split
  · exact hbest
  split
  · next hall => exact havail c hall
  · exact hbest

lemma minIntersection_induction {P : Nat → Prop} (hkeys : keys ≠ []) (hzero : P 0)
    (havail : ∀ c, Available s keys maximumBatch c → P c) :
    P (minIntersection s keys maximumBatch) := by
  cases keys with
  | nil => exact absurd rfl hkeys
  | cons first rest =>
    have hbest := consider_induction (s.opportunities.get first).sortedKeys hzero havail
    simp only [minIntersection]
    split
    · exact consider_induction [maximumBatch] hbest havail
    · exact consider_induction _ hbest havail

/-- The scan ends at or below every candidate that it meets and that all keys allow. -/
lemma foldl_consider_le {n : Nat} (candidates : List Nat)
    (h : 1 ≤ best ∧ best ≤ n ∨ n ∈ candidates ∧ 1 ≤ n ∧ Available s keys maximumBatch n) :
    1 ≤ candidates.foldl (consider s keys maximumBatch) best ∧
      candidates.foldl (consider s keys maximumBatch) best ≤ n := by
  have hstep : ∀ best c, 1 ≤ best ∧ best ≤ n ∨ c = n ∧ 1 ≤ n ∧ Available s keys maximumBatch n →
      1 ≤ consider s keys maximumBatch best c ∧ consider s keys maximumBatch best c ≤ n := by
    intro best c h
    unfold consider
    split
    · omega
    split
    · omega
    · next hnot => exact h.resolve_right fun hn => hnot (hn.1 ▸ hn.2.2)
  rcases h with h | ⟨hmem, hn⟩
  · exact foldlRecOn (motive := fun best => 1 ≤ best ∧ best ≤ n) candidates _ h
      fun best hbest c _ => hstep best c (.inl hbest)
  · exact Run.foldl_of_mem (P := fun best => 1 ≤ best ∧ best ≤ n) hmem
      (fun best => hstep best n (.inr ⟨rfl, hn⟩))
        (fun best c _ hbest => hstep best c (.inl hbest)) _

lemma minIntersection_le {n : Nat} (htidy : Tidy s)
    (hmax : ∀ key ∈ keys, openBatch s.currentBatch key ≤ maximumBatch) (hn : 1 ≤ n)
    (hlt : n < maximumBatch) (hopen : ∀ key ∈ keys, ¬ Taken s key n) :
    1 ≤ minIntersection s keys maximumBatch ∧ minIntersection s keys maximumBatch ≤ n := by
  have havail : Available s keys maximumBatch n :=
    all_eq_true.2 fun key hkey => (available_iff htidy (hmax key hkey)).2 ⟨hopen key hkey, .inl hlt⟩
  cases keys with
  | nil => exact ⟨le_rfl, hn⟩
  | cons first rest =>
    simp only [minIntersection]
    by_cases hfree : (s.opportunities.get first).get n = true
    · have hmem : n ∈ (s.opportunities.get first).sortedKeys :=
        mem_sortedKeys.2 ⟨_, find_of_get (by simp [hfree])⟩
      have hbest := @foldl_consider_le T s maximumBatch _ 0 n _ (.inr ⟨hmem, hn, havail⟩)
      split
      · exact foldl_consider_le [maximumBatch] (.inl hbest)
      · exact foldl_consider_le _ (.inl hbest)
    · -- the batch is not one that the first key has skipped
      have hle : openBatch s.currentBatch first ≤ n :=
        not_lt.1 fun hlt' => hopen first mem_cons_self ⟨hlt', Bool.eq_false_iff.2 hfree⟩
      rw [if_neg (by omega)]
      exact foldl_consider_le _ (.inr ⟨mem_range'_1.2 ⟨hle, by omega⟩, hn, havail⟩)

lemma le_maxBatch (hkey : key ∈ keys) : openBatch table key ≤ maxBatch table keys :=
  Run.foldl_of_mem (P := (openBatch table key ≤ ·)) hkey (fun _ => le_max_right _ _)
    (fun _ _ _ hle => le_max_of_le_left hle) 1

/-- The batch of a transaction with writes is the least one that is open to all its keys. -/
lemma wrbpAssign_eq (htidy : Tidy s) (hsome : item.writeKeys ≠ []) :
    ∃ n, IsLeast {n | 1 ≤ n ∧ ∀ key ∈ item.writeKeys, ¬ Taken s key n} n ∧
      wrbpAssign s item = { item.writeKeys.foldl (assignKey n) s with
        batches := (item.writeKeys.foldl (assignKey n) s).batches.add n item } := by
  have hmax : ∀ key ∈ item.writeKeys, openBatch s.currentBatch key ≤ maxBatch s.currentBatch
    item.writeKeys := fun key hkey => le_maxBatch s.currentBatch hkey
  generalize hhighest : maxBatch s.currentBatch item.writeKeys = highest at hmax
  refine ⟨if minIntersection s item.writeKeys highest < 1 then highest
    else minIntersection s item.writeKeys highest, ⟨?_, ?_⟩, ?_⟩
  · split
    · obtain ⟨key, hkey⟩ := exists_mem_of_ne_nil _ hsome
      refine ⟨(one_le_openBatch _ key).trans (hmax key hkey), fun key hkey htaken => ?_⟩
      exact absurd htaken.1 (hmax key hkey).not_gt
    · next hpos =>
      have hopen : Open s item.writeKeys (minIntersection s item.writeKeys highest) := by
        refine minIntersection_induction hsome (.inl rfl) fun c hall => .inr fun key hkey => ?_
        exact ((available_iff htidy (hmax key hkey)).1 (all_eq_true.1 hall key hkey)).1
      exact ⟨not_lt.1 hpos, hopen.resolve_left (by omega)⟩
  · rintro n ⟨hn, hopen⟩
    have hle : minIntersection s item.writeKeys highest ≤ highest := by
      refine minIntersection_induction (P := (· ≤ highest)) hsome (Nat.zero_le _) fun c hall => ?_
      obtain ⟨key, hkey⟩ := exists_mem_of_ne_nil _ hsome
      have hor := ((available_iff htidy (hmax key hkey)).1 (all_eq_true.1 hall key hkey)).2
      omega
    by_cases hlt : n < highest
    · have hfound := minIntersection_le htidy hmax hn hlt hopen
      rw [if_neg (by omega)]
      exact hfound.2
    · split <;> omega
  · rw [wrbpAssign, if_neg hsome, hhighest]

lemma wrbpAssign_spec (htidy : Tidy s) (h : Split (Taken s) s.batches done)
    (hfresh : item.txID ∉ ids done) :
    Tidy (wrbpAssign s item) ∧
      Split (Taken (wrbpAssign s item)) (wrbpAssign s item).batches (done ++ [item]) := by
  by_cases hnone : item.writeKeys = []
  · rw [wrbpAssign, if_pos hnone]
    refine ⟨htidy, ?_⟩
    exact h.add (by simp [hnone]) (fun _ _ ht => ht) (by simp [hnone]) hfresh
  · obtain ⟨n, hleast, heq⟩ := wrbpAssign_eq htidy hnone
    obtain ⟨htidy', htaken, hbat⟩ := foldl_assignKey_spec htidy n item.writeKeys
    rw [heq]
    refine ⟨htidy', ?_⟩
    have hadd := h.add (n := n) hleast.1.2 (fun key m hk => (htaken key m).2 (.inl hk))
      (fun key hkey => (htaken key n).2 (.inr ⟨hkey, rfl⟩)) hfresh
    rw [← hbat] at hadd
    exact hadd

lemma split_foldl {σ : Type} (P : σ → List (TxDescriptor T) → Prop) {step : σ → TxDescriptor T → σ}
    (hstep : ∀ s done item, P s done → item.txID ∉ ids done → P (step s item) (done ++ [item]))
    {s : σ} (h : P s []) (hdist : (ids items).Nodup) : P (items.foldl step s) items := by
  induction items using List.reverseRecOn with
  | nil => exact h
  | append_singleton items item ih =>
    rw [ids, map_append, nodup_append] at hdist
    rw [foldl_append]
    exact hstep _ _ _ (ih hdist.1) fun hin => hdist.2.2 _ hin _ (by simp) rfl

lemma perm_orderedDescriptors (items : List (TxDescriptor T)) :
    (orderedDescriptors items).Perm items :=
  perm_insertionSort _ items

lemma WellSplit.of_perm {items' : List (TxDescriptor T)} {split : List (Partition T)}
    (h : WellSplit items split) (hperm : items.Perm items') : WellSplit items' split :=
  ⟨h.oneWriter, fun p hp d hd => hperm.mem_iff.1 (h.mem p hp d hd), h.distinct, h.apart⟩

lemma wellSplit_wrbpPartition (hdist : (ids items).Nodup) :
    WellSplit items (wrbpPartition items).1 := by
  have hperm := perm_orderedDescriptors items
  have hall := split_foldl (fun s done => Tidy s ∧ Split (Taken s) s.batches done)
    (s := ({} : WRBPState T)) (fun s done item hs hfresh => wrbpAssign_spec hs.1 hs.2 hfresh)
    ⟨fun _ _ hfree => (nomatch hfree), Split.empty _⟩ ((hperm.map _).nodup_iff.2 hdist)
  exact hall.2.compactPartitions.of_perm hperm

/-! ## The sequential ablation -/

lemma openBatch_foldl_put (keys : List String) (n : Nat) (key : String) :
    openBatch (keys.foldl (fun table key => table.put key (n + 1)) table) key =
      if key ∈ keys then n + 1 else openBatch table key := by
  unfold openBatch
  rw [get_foldl_put]
  split <;> rfl

lemma sequentialAssign_spec {s : GoMap String Nat × Batches T}
    (h : Split (fun key n => n < openBatch s.1 key) s.2 done) (hfresh : item.txID ∉ ids done) :
    Split (fun key n => n < openBatch (sequentialAssign s item).1 key) (sequentialAssign s item).2
      (done ++ [item]) := by
  unfold sequentialAssign
  split
  · next hnone => exact h.add (by simp [hnone]) (fun _ _ ht => ht) (by simp [hnone]) hfresh
  refine h.add ?_ ?_ ?_ hfresh
  · exact fun key hkey => not_lt.2 (le_maxBatch s.1 hkey)
  · intro key n hn
    simp only [openBatch_foldl_put]
    split
    · next hkey =>
      have hle := le_maxBatch s.1 hkey
      omega
    · exact hn
  · intro key hkey
    simp only [openBatch_foldl_put, if_pos hkey]
    omega

lemma wellSplit_sequentialPartition (hdist : (ids items).Nodup) :
    WellSplit items (sequentialPartition items) := by
  have hperm := perm_orderedDescriptors items
  have hall := split_foldl (fun s done => Split (fun key n => n < openBatch s.1 key) s.2 done)
    (s := ((∅, ∅) : GoMap String Nat × Batches T))
    (fun s done item hs hfresh => sequentialAssign_spec hs hfresh)
    (Split.empty _) ((hperm.map _).nodup_iff.2 hdist)
  exact hall.compactPartitions.of_perm hperm

lemma wellSplit_partitions (config : Config) (hdist : (ids items).Nodup) :
    WellSplit items (partitions config items).1 := by
  unfold partitions
  split
  · exact wellSplit_sequentialPartition hdist
  · exact wellSplit_wrbpPartition hdist

end ChainLab.Execution.BatchSI
