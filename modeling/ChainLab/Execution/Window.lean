import ChainLab.Data.GoMap
import ChainLab.Proposal.Transaction

/-!
# Consensus windows

The planner gathers route batches into windows that fit in a block.  A batch that alone exceeds the
limit is refused after it has taken the place of the open window, whose records are lost.  Sequences
are `uint64` and wrap around.
-/

namespace ChainLab.MetaTrack

open List

structure PreparedRecord where
  routingOrdinal : Nat
  executionShard : String
  routeBatchSequence : UInt64
  consensusExecutionRound : Int := 1
  consensusExecutionPredecessorOrdinals : List Nat := []
  stateVersions : List Proposal.StateVersionDependency := []
deriving DecidableEq

def executionPredecessors (r : PreparedRecord) : List Nat :=
  (r.consensusExecutionPredecessorOrdinals ++
    (r.stateVersions.filter (0 < ·.requiredExecutionRound)).map (·.requiredVersion)).filter
      fun pred => 0 < pred ∧ pred < r.routingOrdinal

/-- The depths of the records by their ordinals, and the greatest depth. -/
def extendCriticalPath (base : GoMap Nat Nat) (batch : List PreparedRecord) : GoMap Nat Nat × Nat :=
  (batch.insertionSort (·.routingOrdinal ≤ ·.routingOrdinal)).foldl (fun (depths, longest) r =>
      let depth :=
        (executionPredecessors r).foldl (fun depth pred => max depth (depths.get pred + 1)) 1
      (depths.put r.routingOrdinal depth, max longest depth))
    (base, (base.entries.map (·.2)).foldl max 0)

def dependencyClosedJoin (candidate : List PreparedRecord) : Bool :=
  candidate ≠ [] ∧ (0 :: candidate.map (·.routingOrdinal)).Nodup ∧ ∀ r ∈ candidate,
    ∀ pred ∈ r.consensusExecutionPredecessorOrdinals ++
        (r.stateVersions.filter (·.requiredExecutionRound ≠ 0)).map (·.requiredVersion),
      pred ≠ 0 → pred < r.routingOrdinal ∧
        ((∃ r' ∈ candidate, r'.routingOrdinal ≤ pred) → ∃ r' ∈ candidate, r'.routingOrdinal = pred)

/-- The quotients of transactions and critical path are compared without division. -/
def criticalWidthImproves (currentN currentL candidateN candidateL : Nat) : Bool :=
  currentN = 0 ∨ currentL = 0 ∨
    currentN < candidateN ∧ 0 < candidateL ∧ currentN * candidateL < candidateN * currentL

/-- The open window.  `finalizeCurrent` writes its fields and the counts of its records into
them. -/
structure Window where
  sequence : UInt64 := 1
  records : List PreparedRecord := []
  depthByOrdinal : GoMap Nat Nat := ∅
  criticalPath : Nat := 0
  startBatch : UInt64 := 0
  endBatch : UInt64 := 0

def CountsFitBlock (limit : Int) (records : List PreparedRecord) : Prop :=
  0 < limit ∧ ∀ r ∈ records,
    ((records.filter fun r' => r'.executionShard = r.executionShard).length : Int) ≤ limit

instance (limit : Int) (records : List PreparedRecord) : Decidable (CountsFitBlock limit records) :=
  inferInstanceAs (Decidable (_ ∧ _))

lemma CountsFitBlock.of_append {limit : Int} {records records' : List PreparedRecord}
    (h : CountsFitBlock limit (records ++ records')) : CountsFitBlock limit records := by
  refine ⟨h.1, fun r hr => le_trans (Int.ofNat_le.2 ?_) (h.2 r (mem_append_left _ hr))⟩
  rw [filter_append, length_append]
  exact Nat.le_add_right _ _

def resetWithBatch (w : Window) (first : PreparedRecord) (rest : List PreparedRecord) : Window where
  sequence := if w.sequence = 0 then 1 else w.sequence
  records := first :: rest
  depthByOrdinal := (extendCriticalPath ∅ (first :: rest)).1
  criticalPath := (extendCriticalPath ∅ (first :: rest)).2
  startBatch := first.routeBatchSequence
  endBatch := first.routeBatchSequence

/-- The first error of the loop over the records of a batch. -/
def batchError (seq : UInt64) (batch : List PreparedRecord) : Option String :=
  batch.findSome? fun r =>
    if r.routeBatchSequence ≠ seq then some "metatrack v669 mixed route-batch sequence"
    else if r.consensusExecutionRound ≤ 0
      then some "metatrack v669 missing signed global execution round"
    else none

variable (blockLimit : Int)

/-- Whether a batch may share the open window. -/
def Joins (w : Window) (batch : List PreparedRecord) : Prop :=
  CountsFitBlock blockLimit (w.records ++ batch) ∧ dependencyClosedJoin (w.records ++ batch) ∧
    criticalWidthImproves w.records.length w.criticalPath (w.records ++ batch).length
      (extendCriticalPath w.depthByOrdinal batch).2

instance (w : Window) (batch : List PreparedRecord) : Decidable (Joins blockLimit w batch) :=
  inferInstanceAs (Decidable (_ ∧ _))

def pushBatchAdaptiveNL (w : Window) : List PreparedRecord → Window × Except String (Option Window)
  | [] => (w, .ok none)
  | first :: rest =>
    let reset (w : Window) (closed : Option Window) :=
      (resetWithBatch w first rest, if CountsFitBlock blockLimit (first :: rest) then .ok closed
        else .error "metatrack v669 one route-batch projection exceeds block limit")
    match batchError first.routeBatchSequence (first :: rest) with
    | some err => (w, .error err)
    | none =>
      if w.records = [] then reset w none
      else if first.routeBatchSequence ≠ w.endBatch + 1 then
        (w, .error "metatrack v669 route batches are not contiguous")
      else if Joins blockLimit w (first :: rest) then
        ({ w with
            records := w.records ++ first :: rest
            depthByOrdinal := (extendCriticalPath w.depthByOrdinal (first :: rest)).1
            criticalPath := (extendCriticalPath w.depthByOrdinal (first :: rest)).2
            endBatch := first.routeBatchSequence }, .ok none)
      else reset { w with sequence := w.sequence + 1 } (some w)

def flush (w : Window) : Window × Option Window :=
  if w.records = [] then (w, none) else ({ sequence := w.sequence }, some w)

/-- A planner with the windows that calls have closed and the records of the calls without an
error. -/
structure Planner where
  current : Window := {}
  closed : List Window := []
  accepted : List PreparedRecord := []

namespace Planner

def push (p : Planner) (batch : List PreparedRecord) : Planner :=
  match pushBatchAdaptiveNL blockLimit p.current batch with
  | (w, .ok out) => ⟨w, p.closed ++ out.toList, p.accepted ++ batch⟩
  | (w, .error _) => { p with current := w }

def run (batches : List (List PreparedRecord)) : Planner :=
  batches.foldl (push blockLimit) {}

/-- The windows of a run that ends with `Flush`. -/
def outputs (p : Planner) : List Window :=
  p.closed ++ (flush p.current).2.toList

/-- The windows hold the accepted records in order, one after the other, and fit in a block. -/
structure Conserves (p : Planner) : Prop where
  records : p.outputs.flatMap Window.records = p.accepted
  fits : ∀ w ∈ p.outputs, CountsFitBlock blockLimit w.records
  contiguous : p.outputs.IsChain fun w w' => w'.startBatch = w.endBatch + 1

/-- The batch passes the checks and does not join the open window, so it takes its place. -/
def Replaces (w : Window) : List PreparedRecord → Prop
  | [] => False
  | first :: rest => batchError first.routeBatchSequence (first :: rest) = none ∧
    (w.records = [] ∨
      first.routeBatchSequence = w.endBatch + 1 ∧ ¬ Joins blockLimit w (first :: rest))

instance (w : Window) : (batch : List PreparedRecord) → Decidable (Replaces blockLimit w batch)
  | [] => .isFalse id
  | _ :: _ => inferInstanceAs (Decidable (_ ∧ _))

/-- What a call can do to the planner. -/
inductive Pushed (p : Planner) (batch : List PreparedRecord) : Planner → Prop
  | unchanged : ¬ Replaces blockLimit p.current batch → Pushed p batch p
  | joined (w : Window) : ¬ Replaces blockLimit p.current batch → p.current.records ≠ [] →
      w.records = p.current.records ++ batch → w.startBatch = p.current.startBatch →
      CountsFitBlock blockLimit w.records →
      Pushed p batch { p with current := w, accepted := p.accepted ++ batch }
  | replaced (w : Window) : w.records = batch → batch ≠ [] →
      (p.current.records ≠ [] → w.startBatch = p.current.endBatch + 1) →
      CountsFitBlock blockLimit batch →
      Pushed p batch ⟨w, p.closed ++ (flush p.current).2.toList, p.accepted ++ batch⟩
  | lost (w : Window) : w.records = batch → batch ≠ [] → Replaces blockLimit p.current batch →
      ¬ CountsFitBlock blockLimit batch → Pushed p batch { p with current := w }

variable {blockLimit} {p p' : Planner} {batch : List PreparedRecord}

lemma push_cases (p : Planner) (batch : List PreparedRecord) :
    Pushed blockLimit p batch (p.push blockLimit batch) := by
  cases batch with
  | nil =>
    have hkeeps : Pushed blockLimit p [] p := .unchanged id
    simpa [push, pushBatchAdaptiveNL] using hkeeps
  | cons first rest =>
    cases herr : batchError first.routeBatchSequence (first :: rest) with
    | some err =>
      have hkeeps : Pushed blockLimit p (first :: rest) p :=
        .unchanged fun hreplaces => by simp [Replaces, herr] at hreplaces
      simpa [push, pushBatchAdaptiveNL, herr] using hkeeps
    | none =>
      have hreset : ∀ {w : Window}, Replaces blockLimit p.current (first :: rest) →
          (p.current.records ≠ [] → first.routeBatchSequence = p.current.endBatch + 1) →
          Pushed blockLimit p (first :: rest)
            (if CountsFitBlock blockLimit (first :: rest) then
              ⟨resetWithBatch w first rest, p.closed ++ (flush p.current).2.toList,
                p.accepted ++ first :: rest⟩
            else { p with current := resetWithBatch w first rest }) := by
        intro w hreplaces hseq
        split_ifs with hfits
        · exact .replaced _ rfl (cons_ne_nil first rest) hseq hfits
        · exact .lost _ rfl (cons_ne_nil first rest) hreplaces hfits
      simp only [push, pushBatchAdaptiveNL, herr]
      by_cases hidle : p.current.records = []
      · have hpush := hreset (w := p.current) ⟨herr, .inl hidle⟩ (absurd hidle)
        by_cases hfits : CountsFitBlock blockLimit (first :: rest) <;>
          simpa [hidle, hfits, flush] using hpush
      · by_cases hseq : first.routeBatchSequence = p.current.endBatch + 1
        · by_cases hjoin : Joins blockLimit p.current (first :: rest)
          · simp only [if_neg hidle, ne_eq, hseq, not_true_eq_false, if_false,
              if_pos hjoin, Option.toList_none, append_nil]
            refine .joined
              { p.current with records := _, depthByOrdinal := _, criticalPath := _, endBatch := _ }
              ?_ hidle rfl rfl hjoin.1
            simp [Replaces, hidle, hjoin]
          · have hpush := hreset (w := { p.current with sequence := p.current.sequence + 1 })
              ⟨herr, .inr ⟨hseq, hjoin⟩⟩ fun _ => hseq
            by_cases hfits : CountsFitBlock blockLimit (first :: rest) <;>
              simpa [hidle, hseq, hjoin, hfits, flush] using hpush
        · have hkeeps : Pushed blockLimit p (first :: rest) p :=
            .unchanged (by simp [Replaces, hidle, hseq])
          simpa [hidle, hseq] using hkeeps

/-- The invariant of a run: before the first window nothing is closed. -/
def Planned (blockLimit : Int) (p : Planner) : Prop :=
  p.Conserves blockLimit ∧ (p.current.records = [] → p.closed = [])

lemma Planned.pushed (h : p.Planned blockLimit) (hpush : Pushed blockLimit p batch p')
    (hfits : Replaces blockLimit p.current batch → CountsFitBlock blockLimit batch) :
    p'.Planned blockLimit := by
  obtain ⟨⟨hrecords, hall, hchain⟩, hstarted⟩ := h
  cases hpush with
  | unchanged _ => exact ⟨⟨hrecords, hall, hchain⟩, hstarted⟩
  | joined w _ hidle hw hstart hjoin =>
    rw [outputs, flush, if_neg hidle] at hrecords hall hchain
    have hne : w.records ≠ [] := by simp [hw, hidle]
    refine ⟨⟨?_, ?_, ?_⟩, fun hnil => absurd hnil hne⟩ <;>
      simp_all [outputs, flush, isChain_append, or_imp, forall_and, ← hrecords]
  | replaced w hw hne hseq hbatch =>
    have hopen : w.records ≠ [] := hw ▸ hne
    have hnew : outputs ⟨w, p.closed ++ (flush p.current).2.toList, p.accepted ++ batch⟩ =
        p.outputs ++ [w] := by simp [outputs, flush, hopen]
    refine ⟨⟨?_, ?_, ?_⟩, fun hnil => absurd hnil hopen⟩
    · simp [hnew, hrecords, hw]
    · simpa [hnew, or_imp, forall_and, hw, hbatch] using hall
    · rw [hnew, isChain_append]
      refine ⟨hchain, isChain_singleton w, fun last hlast next hnext => ?_⟩
      cases hnext
      by_cases hidle : p.current.records = []
      · simp [outputs, flush, hidle, hstarted hidle] at hlast
      · have hcurrent : last = p.current := by simpa [outputs, flush, hidle] using hlast.symm
        exact hcurrent ▸ hseq hidle
  | lost w hw hne hreplaces hbatch => exact absurd (hfits hreplaces) hbatch

/-- A window that is too large stays one of the outputs. -/
def Oversized (blockLimit : Int) (p : Planner) : Prop :=
  ∃ w ∈ p.outputs, ¬ CountsFitBlock blockLimit w.records

lemma oversized_lost {w : Window} (hw : w.records = batch) (hne : batch ≠ [])
    (h : ¬ CountsFitBlock blockLimit batch) : Oversized blockLimit { p with current := w } :=
  ⟨w, by simp [outputs, flush, hw, hne], hw ▸ h⟩

lemma Pushed.oversized (hpush : Pushed blockLimit p batch p')
    (hreplaces : Replaces blockLimit p.current batch) (hnot : ¬ CountsFitBlock blockLimit batch) :
    p'.Oversized blockLimit := by
  cases hpush with
  | unchanged hkeeps => exact absurd hreplaces hkeeps
  | joined w hkeeps => exact absurd hreplaces hkeeps
  | replaced w hw hne hseq hfits => exact absurd hfits hnot
  | lost w hw hne => exact oversized_lost hw hne hnot

lemma Oversized.pushed (h : p.Oversized blockLimit) (hpush : Pushed blockLimit p batch p') :
    p'.Oversized blockLimit := by
  obtain ⟨large, hlarge, hnot⟩ := h
  cases hpush with
  | unchanged _ => exact ⟨large, hlarge, hnot⟩
  | joined w _ hidle hw hstart hjoin =>
    rw [outputs, flush, if_neg hidle] at hlarge
    rcases mem_append.1 hlarge with hclosed | hcurrent
    · exact ⟨large, mem_append_left _ hclosed, hnot⟩
    rw [mem_singleton.1 hcurrent] at hnot
    rw [hw] at hjoin
    exact absurd hjoin.of_append hnot
  | replaced w hw hne hseq hbatch => exact ⟨large, mem_append_left _ hlarge, hnot⟩
  | lost w hw hne hreplaces hbatch => exact oversized_lost hw hne hbatch

/-- The windows hold the accepted records in order exactly if every batch that takes the place of
the open window fits in a block. -/
theorem windows_conserve {batches : List (List PreparedRecord)} :
    (run blockLimit batches).Conserves blockLimit ↔ ∀ pre batch, pre ++ [batch] <+: batches →
      Replaces blockLimit (run blockLimit pre).current batch → CountsFitBlock blockLimit batch := by
  constructor
  · rintro hconserves pre batch ⟨rest, rfl⟩ hreplaces
    by_contra hnot
    have hlost := (push_cases (run blockLimit pre) batch).oversized hreplaces hnot
    have hall : Oversized blockLimit (run blockLimit (pre ++ [batch] ++ rest)) := by
      rw [run, foldl_append, foldl_append]
      exact foldlRecOn (motive := Oversized blockLimit) rest (push blockLimit) hlost
        fun p hp batch _ => hp.pushed (push_cases p batch)
    obtain ⟨w, hw, hlarge⟩ := hall
    exact hlarge (hconserves.fits w hw)
  · intro hfits
    suffices h : ∀ pre, pre <+: batches → Planned blockLimit (run blockLimit pre) from
      (h batches prefix_rfl).1
    intro pre
    induction pre using reverseRecOn with
    | nil =>
      exact fun _ => ⟨⟨rfl, by simp [outputs, flush, run], by simp [outputs, flush, run]⟩,
        fun _ => rfl⟩
    | append_singleton pre batch ih =>
      intro hpre
      rw [run, foldl_append]
      exact (ih ((prefix_append _ _).trans hpre)).pushed (push_cases _ batch) (hfits pre batch hpre)

def record (ordinal : Nat) (seq : UInt64) : PreparedRecord :=
  { routingOrdinal := ordinal, executionShard := "s", routeBatchSequence := seq }

/-- A record that was accepted is lost to a batch that is too large and is refused. -/
theorem windows_lose_record :
    let p := run 1 [[record 1 1], [record 2 2, record 3 2]]
    p.accepted = [record 1 1] ∧ p.outputs.flatMap Window.records = [record 2 2, record 3 2] ∧
      ¬ p.Conserves 1 := by
  refine ⟨by decide, by decide, fun h => ?_⟩
  have hrecords := h.records
  revert hrecords
  decide

/-- A batch that is too large and not contiguous is refused, and nothing is lost. -/
theorem windows_conserve_two :
    (run 1 [[record 1 1], [record 2 2], [record 3 9, record 4 9]]).Conserves 1 := by
  refine windows_conserve.2 fun pre batch hpre hreplaces => ?_
  rcases pre with _ | ⟨first, _ | ⟨second, _ | ⟨third, rest⟩⟩⟩ <;>
    simp only [cons_append, nil_append, cons_prefix_cons] at hpre
  · obtain ⟨rfl, -⟩ := hpre
    decide
  · obtain ⟨rfl, rfl, -⟩ := hpre
    decide
  · obtain ⟨rfl, rfl, rfl, -⟩ := hpre
    exact absurd hreplaces (by decide)
  · simp at hpre

end Planner
end ChainLab.MetaTrack
