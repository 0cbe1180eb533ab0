import ChainLab.Execution.BatchSI.Batches

/-!
# WRBP is first fit

`batchSIWRBPPartition` does not look at the batches: for each key it keeps the next batch and the
earlier ones without a writer.  A transaction still goes to the lowest batch in which none of its
keys has a writer.
-/

namespace ChainLab.Execution.BatchSI

open List

variable {T : Type}

/-- Of the transactions `placed`, each with the number of its batch, one in batch `n` writes
`key`. -/
def Written (placed : List (Nat × TxDescriptor T)) (key : String) (n : Nat) : Prop :=
  ∃ e ∈ placed, e.1 = n ∧ key ∈ e.2.writeKeys

def FirstFit (placed : List (Nat × TxDescriptor T)) (item : TxDescriptor T) (n : Nat) : Prop :=
  if item.writeKeys = [] then n = 1
  else IsLeast {n | 1 ≤ n ∧ ∀ key ∈ item.writeKeys, ¬ Written placed key n} n

inductive FirstFits : List (Nat × TxDescriptor T) → Prop where
  | nil : FirstFits []
  | place {placed : List (Nat × TxDescriptor T)} {item : TxDescriptor T} {n : Nat} :
      FirstFits placed → FirstFit placed item n → FirstFits (placed ++ [(n, item)])

/-- The transactions of batch `n`. -/
def inBatch (placed : List (Nat × TxDescriptor T)) (n : Nat) : List (TxDescriptor T) :=
  (placed.filter fun e => e.1 = n).map Prod.snd

variable {placed : List (Nat × TxDescriptor T)} {item : TxDescriptor T} {s : WRBPState T}

lemma inBatch_concat (n m : Nat) : inBatch (placed ++ [(n, item)]) m =
    if m = n then inBatch placed n ++ [item] else inBatch placed m := by
  by_cases h : m = n
  · simp [inBatch, h]
  · simp [inBatch, h, Ne.symm h]

lemma written_concat (n : Nat) (key : String) (m : Nat) : Written (placed ++ [(n, item)]) key m ↔
    Written placed key m ∨ key ∈ item.writeKeys ∧ m = n := by
  simp only [Written, mem_append, mem_singleton, or_and_right, exists_or, exists_eq_left]
  rw [and_comm, eq_comm]

lemma FirstFits.oneWriter (h : FirstFits placed) (n : Nat) : OneWriter (inBatch placed n) := by
  induction h with
  | nil => exact List.Pairwise.nil
  | @place placed item m _ hfit ih =>
    rw [inBatch_concat]
    split
    next heq =>
      subst heq
      refine pairwise_append.2 ⟨ih, pairwise_singleton _ _, fun d hd d' hd' key hkey hkey' => ?_⟩
      rw [mem_singleton.1 hd'] at hkey'
      obtain ⟨e, he, rfl⟩ := mem_map.1 hd
      rw [FirstFit, if_neg (ne_nil_of_mem hkey')] at hfit
      exact hfit.1.2 key hkey' ⟨e, (mem_filter.1 he).1, by simpa using (mem_filter.1 he).2, hkey⟩
    next => exact ih

/-- What WRBP remembers of the transactions it has placed. -/
structure Places (s : WRBPState T) (placed : List (Nat × TxDescriptor T)) : Prop where
  tidy : Tidy s
  get_eq : ∀ n, s.batches.get n = inBatch placed n
  taken_iff : ∀ key n, 1 ≤ n → (Taken s key n ↔ Written placed key n)

lemma Places.assign (h : Places s placed) (item : TxDescriptor T) :
    ∃ n, FirstFit placed item n ∧ Places (wrbpAssign s item) (placed ++ [(n, item)]) := by
  by_cases hnone : item.writeKeys = []
  · refine ⟨1, (if_pos hnone).mpr rfl, ?_⟩
    rw [wrbpAssign, if_pos hnone]
    exact
      { tidy := h.tidy
        get_eq := fun n => by rw [get_add, inBatch_concat, h.get_eq, h.get_eq]
        taken_iff := fun key n hn => by
          rw [written_concat, ← h.taken_iff key n hn, hnone]
          exact (or_iff_left (by simp)).symm }
  · obtain ⟨n, hleast, heq⟩ := wrbpAssign_eq h.tidy hnone
    obtain ⟨htidy, htaken, hbat⟩ := foldl_assignKey_spec h.tidy n item.writeKeys
    refine ⟨n, ?_, ?_⟩
    · have hset : {n | 1 ≤ n ∧ ∀ key ∈ item.writeKeys, ¬ Written placed key n} =
          {n | 1 ≤ n ∧ ∀ key ∈ item.writeKeys, ¬ Taken s key n} := by
        ext m
        exact and_congr_right fun hm => forall₂_congr fun key _ =>
          not_congr (h.taken_iff key m hm).symm
      rw [FirstFit, if_neg hnone, hset]
      exact hleast
    · rw [heq]
      exact
        { tidy := htidy
          get_eq := fun m => by rw [get_add, inBatch_concat, hbat, h.get_eq, h.get_eq]
          taken_iff := fun key m hm => by
            rw [written_concat, ← h.taken_iff key m hm]
            exact htaken key m }

lemma places_foldl (items : List (TxDescriptor T)) : ∃ placed, FirstFits placed ∧
    placed.map Prod.snd = items ∧ Places (items.foldl wrbpAssign {}) placed := by
  induction items using List.reverseRecOn with
  | nil =>
    refine ⟨[], .nil, rfl, ?_⟩
    exact
      { tidy := fun _ _ hfree => by cases hfree
        get_eq := fun _ => rfl
        taken_iff :=
          fun _ n hn => iff_of_false (fun htaken => absurd htaken.1 hn.not_gt) (by simp [Written]) }
  | append_singleton items item ih =>
    obtain ⟨placed, hfits, rfl, hplaces⟩ := ih
    obtain ⟨n, hfit, hnext⟩ := hplaces.assign item
    refine ⟨_, hfits.place hfit, by simp, ?_⟩
    rw [foldl_append]
    exact hnext

/-! ## Descriptor order -/

lemma descriptorLess_eq_false {a b : TxDescriptor T} : descriptorLess b a = false ↔
    toLex (a.idRank, a.txID) ≤ toLex (b.idRank, b.txID) := by
  rw [Prod.Lex.toLex_le_toLex, descriptorLess]
  simp only [Bool.or_eq_false_iff, decide_eq_false_iff_not, not_lt, Bool.and_eq_false_imp,
    decide_eq_true_eq]
  constructor
  · rintro ⟨hrank, hid⟩
    exact hrank.lt_or_eq.imp_right fun heq => ⟨heq, hid heq.symm⟩
  · rintro (hlt | ⟨heq, hid⟩)
    · exact ⟨hlt.le, fun heq => absurd heq.symm hlt.ne⟩
    · exact ⟨heq.le, fun _ => hid⟩

/-- The descriptors are sorted by rank, and by identifier where the ranks are equal. -/
lemma pairwise_orderedDescriptors (items : List (TxDescriptor T)) :
    (orderedDescriptors items).Pairwise fun a b => descriptorLess b a = false := by
  have htotal : Std.Total fun a b : TxDescriptor T => descriptorLess b a = false :=
    ⟨fun a b => by simpa only [descriptorLess_eq_false] using le_total _ _⟩
  have htrans : IsTrans (TxDescriptor T) fun a b => descriptorLess b a = false :=
    ⟨fun a b c => by simpa only [descriptorLess_eq_false] using le_trans⟩
  exact pairwise_insertionSort _ items

lemma flatMap_ite_eq {numbers : List Nat} (hnd : numbers.Nodup) {n : Nat} (hn : n ∈ numbers)
    (item : TxDescriptor T) : (numbers.flatMap fun m => if n = m then [item] else []) = [item] := by
  induction numbers with
  | nil => cases hn
  | cons m numbers ih =>
    rw [nodup_cons] at hnd
    by_cases hm : n = m
    · subst hm
      have hrest : (numbers.flatMap fun m => if n = m then [item] else []) = [] := by
        refine flatMap_eq_nil_iff.2 fun m hm => if_neg ?_
        rintro rfl
        exact hnd.1 hm
      simp [hrest]
    · simpa [hm] using ih hnd.2 ((mem_cons.1 hn).resolve_left hm)

/-- Batches with different numbers that cover what was placed hold each of it once. -/
lemma perm_flatMap_inBatch {numbers : List Nat} (hnd : numbers.Nodup)
    (hcover : ∀ e ∈ placed, e.1 ∈ numbers) :
    (numbers.flatMap (inBatch placed)).Perm (placed.map Prod.snd) := by
  induction placed with
  | nil => simp [inBatch]
  | cons e placed ih =>
    have hsplit : inBatch (e :: placed) =
        fun n => (if e.1 = n then [e.2] else []) ++ inBatch placed n := by
      funext n
      by_cases hn : e.1 = n <;> simp [inBatch, hn]
    rw [hsplit]
    refine (flatMap_append_perm numbers _ _).symm.trans ?_
    rw [flatMap_ite_eq hnd (hcover e (by simp))]
    exact (ih fun e' he' => hcover e' (by simp [he'])).cons e.2

/-- WRBP puts each transaction, in descriptor order, into the batch of first fit.  The batches
consist of the transactions placed in them, so that every transaction of the list is in exactly one
batch, and no batch has two writers of a key. -/
theorem wrbp_first_fit (items : List (TxDescriptor T)) :
    (∃ placed, FirstFits placed ∧ (placed.map Prod.snd).Perm items ∧
      (placed.map Prod.snd).Pairwise (fun a b => descriptorLess b a = false) ∧
      ((wrbpPartition items).1.map Partition.number).Nodup ∧
      (∀ e ∈ placed, e.1 ∈ (wrbpPartition items).1.map Partition.number) ∧
      ∀ p ∈ (wrbpPartition items).1, p.txs = inBatch placed p.number ∧ OneWriter p.txs) ∧
    ((wrbpPartition items).1.flatMap Partition.txs).Perm items := by
  obtain ⟨placed, hfits, hitems, hplaces⟩ := places_foldl (orderedDescriptors items)
  have hnums : (wrbpPartition items).1.map Partition.number =
      (((orderedDescriptors items).foldl wrbpAssign {}).batches.sortedKeys.filter fun number =>
        ((orderedDescriptors items).foldl wrbpAssign {}).batches.get number ≠ []) := by
    simp [wrbpPartition, compactPartitions, Function.comp_def]
  have hperm : (placed.map Prod.snd).Perm items := hitems ▸ perm_orderedDescriptors items
  have hnd : ((wrbpPartition items).1.map Partition.number).Nodup := by
    rw [hnums]
    exact (GoMap.nodup_sortedKeys _).filter _
  have hcover : ∀ e ∈ placed, e.1 ∈ (wrbpPartition items).1.map Partition.number := by
    intro e he
    have hne : ((orderedDescriptors items).foldl wrbpAssign {}).batches.get e.1 ≠ [] := by
      rw [hplaces.get_eq]
      exact ne_nil_of_mem (mem_map.2 ⟨e, mem_filter.2 ⟨he, by simp⟩, rfl⟩)
    rw [hnums, mem_filter]
    exact ⟨GoMap.mem_sortedKeys.2 ⟨_, GoMap.find_of_get hne⟩, by simpa using hne⟩
  have htxs : ∀ p ∈ (wrbpPartition items).1, p.txs = inBatch placed p.number := by
    intro p hp
    obtain ⟨n, -, rfl⟩ := mem_map.1 hp
    exact hplaces.get_eq n
  refine ⟨⟨placed, hfits, hperm, hitems ▸ pairwise_orderedDescriptors items, hnd, hcover,
    fun p hp => ?_⟩, ?_⟩
  · exact ⟨htxs p hp, htxs p hp ▸ hfits.oneWriter p.number⟩
  · have hflat : (wrbpPartition items).1.flatMap Partition.txs =
        ((wrbpPartition items).1.map Partition.number).flatMap (inBatch placed) := by
      rw [flatMap_map]
      exact flatMap_congr htxs
    rw [hflat]
    exact (perm_flatMap_inBatch hnd hcover).trans hperm

end ChainLab.Execution.BatchSI
