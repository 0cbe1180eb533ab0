import ChainLab.Data.Reorder
import ChainLab.Execution.Literature.Declared

/-!
# Waves of transactions

`executeCGPlan` and `executeACGPlan` execute the waves of a plan one after the other.  The workers
of a pool run the transactions of a wave over the state in which the wave starts, through
`SerialExecutor.ExecuteTransaction`; then the write sets are applied in the order of the wave.
`ExecutesWaves` relates a base state to every outcome that some interleaving of the workers leads
to, `serialRun` executes transactions one by one.
-/

namespace ChainLab.Execution.Literature

open List
open BatchSI (PlannedBlock BatchStart)

abbrev literatureQualifiedKey (shardID key : String) : String := qualified shardID key

inductive WaveError where
  | unknownTransaction (id : String)
deriving DecidableEq, Repr

def rootless (delta : TxDelta) : TxDelta :=
  { delta with receipt := { delta.receipt with stateRootAfterTx := "" } }

section Executor

variable {T : Type} (body : T → SignedTransaction) (digests : Digests)
  (root : (String → Option String) → String) (workers : Nat) (b : PlannedBlock T)

abbrev txProg (entry : T × Nat) : TxProg (Option TxError) :=
  executeTx digests 1000000 b.shardID (body entry.1)

def toDelta (entry : T × Nat) (out : Option TxError × Trace String String) : TxDelta :=
  TxDelta.of entry.2 (body entry.1) (out.2.reads.map (observe "state_snapshot_overlay_local_write"))
    out.2.writes (Receipt.of (b.executed body) (body entry.1) out.1)

/-- `SerialExecutor.ExecuteTransaction`. -/
def waveResult (snapshot : Snapshot) (entry : T × Nat) : TxDelta :=
  toDelta body b entry
    (Serial.outcome (literatureQualifiedKey b.shardID) (txProg body digests b) snapshot entry)

/-- Apply the writes of a transaction and complete its receipt. -/
def applyResult (working : Snapshot) (delta : TxDelta) : TxDelta × Snapshot :=
  let next := Serial.applyWrites (literatureQualifiedKey b.shardID) delta.writeSet working
  ({ delta with receipt := { delta.receipt with stateRootAfterTx := root next.find } }, next)

def materialize (working : Snapshot) : List TxDelta → List TxDelta × Snapshot
  | [] => ([], working)
  | delta :: deltas =>
    let applied := applyResult root b working delta
    let rest := materialize applied.2 deltas
    (applied.1 :: rest.1, rest.2)

/-- The execution of the waves from a working state on: what each wave started with, and the
outcome.  Of several transactions that the block does not have, any one may be reported. -/
inductive ExecutesWaves : Snapshot → List (List String) → List (BatchStart T) →
    Except WaveError (List TxDelta × Snapshot) → Prop where
  | done {working : Snapshot} : ExecutesWaves working [] [] (.ok ([], working))
  | unknown {working : Snapshot} {wave : List String} {waves : List (List String)} {id : String} :
      id ∈ wave → (b.byID body).find id = none →
      ExecutesWaves working (wave :: waves) [] (.error (.unknownTransaction id))
  | next {working : Snapshot} {wave : List String} {waves : List (List String)}
      {transactions : List (T × Nat)} {results : List TxDelta} {starts : List (BatchStart T)}
      {rest : Except WaveError (List TxDelta × Snapshot)} :
      wave.map (b.byID body).find = transactions.map some →
      WorkerPool.Completes (waveResult body digests b working) transactions (max 1 workers)
        results →
      ExecutesWaves (materialize root b working results).2 waves starts rest →
      ExecutesWaves working (wave :: waves) (⟨transactions, working⟩ :: starts)
        (rest.map fun run => ((materialize root b working results).1 ++ run.1, run.2))

/-- The transactions one after the other, each over what the earlier ones have left. -/
def serialRun (working : Snapshot) : List (T × Nat) → List TxDelta × Snapshot
  | [] => ([], working)
  | entry :: entries =>
    let applied := applyResult root b working (waveResult body digests b working entry)
    let rest := serialRun applied.2 entries
    (applied.1 :: rest.1, rest.2)

def WavesDeclared (starts : List (BatchStart T)) : Prop :=
  ∀ start ∈ starts, ∀ entry ∈ start.transactions,
    AccessesDeclared digests 1000000 b.shardID start.snapshot (body entry.1)

end Executor

/-! ## Executions as serial executions -/

section

variable {T : Type} {body : T → SignedTransaction} {digests : Digests}
  {root : (String → Option String) → String} {workers : Nat} {b : PlannedBlock T}

lemma rootless_applyResult (working : Snapshot) (delta : TxDelta) :
    rootless (applyResult root b working delta).1 = rootless delta := rfl

lemma map_rootless_materialize (working : Snapshot) (deltas : List TxDelta) :
    (materialize root b working deltas).1.map rootless = deltas.map rootless := by
  induction deltas generalizing working with
  | nil => rfl
  | cons delta deltas ih => simp only [materialize, map_cons, ih, rootless_applyResult]

lemma materialize_state (start working : Snapshot) (entries : List (T × Nat)) :
    (materialize root b working (entries.map (waveResult body digests b start))).2 =
      Serial.applyAll (literatureQualifiedKey b.shardID)
        (fun entry =>
          (Serial.outcome (literatureQualifiedKey b.shardID) (txProg body digests b) start
          entry).2.writes) entries working := by
  induction entries generalizing working with
  | nil => rfl
  | cons entry entries ih => exact ih _

lemma serialRun_eq (working : Snapshot) (entries : List (T × Nat)) :
    (serialRun body digests root b working entries).1.map rootless =
        (Serial.outcomes (literatureQualifiedKey b.shardID) (txProg body digests b) working
          entries).map (fun pair => toDelta body b pair.1 pair.2) ∧
      (serialRun body digests root b working entries).2 =
        (Serial.serialFrom (literatureQualifiedKey b.shardID) (txProg body digests b) working
          entries).2 := by
  induction entries generalizing working with
  | nil => exact ⟨rfl, rfl⟩
  | cons entry entries ih =>
    obtain ⟨hdelt, hst⟩ :=
      ih (applyResult root b working (waveResult body digests b working entry)).2
    refine ⟨?_, hst⟩
    simp only [serialRun, map_cons, hdelt, rootless_applyResult]
    rfl

def Found (body : T → SignedTransaction) (b : PlannedBlock T) (waves : List (List String))
    (entries : List (List (T × Nat))) : Prop :=
  waves.map (List.map (b.byID body).find) = entries.map (List.map some)

variable {entries : List (List (T × Nat))} {waves : List (List String)} {working : Snapshot}
  {out : Except WaveError (List TxDelta × Snapshot)} {starts : List (BatchStart T)}

lemma exists_executesWaves (working : Snapshot) (hfound : Found body b waves entries) :
    ∃ starts out, ExecutesWaves body digests root workers b working waves starts out := by
  induction waves generalizing working entries with
  | nil => exact ⟨_, _, .done⟩
  | cons wave waves ih =>
    cases entries with
    | nil => cases hfound
    | cons transactions entries =>
      obtain ⟨hwave, hwaves⟩ := List.cons.inj hfound
      have hcomp : WorkerPool.Completes (waveResult body digests b working) transactions
          (max 1 workers) _ :=
        (WorkerPool.completes_iff (Nat.lt_of_lt_of_le Nat.one_pos (Nat.le_max_left _ _))).2 rfl
      obtain ⟨starts, out, hrest⟩ := ih (materialize root b working
        (transactions.map (waveResult body digests b working))).2 hwaves
      exact ⟨_, _, .next hwave hcomp hrest⟩

lemma not_found {wave : List String} {id : String} (hid : id ∈ wave)
    (hnone : (b.byID body).find id = none) {transactions : List (T × Nat)}
    (hfound : wave.map (b.byID body).find = transactions.map some) : False := by
  have hmem : (b.byID body).find id ∈ transactions.map some := hfound ▸ mem_map_of_mem hid
  rw [hnone] at hmem
  obtain ⟨entry, -, he⟩ := mem_map.1 hmem
  cases he

lemma next_found {wave : List String} {transactions transactions' : List (T × Nat)}
    {results : List TxDelta} (hfound : Found body b (wave :: waves) (transactions' :: entries))
    (hwave : wave.map (b.byID body).find = transactions.map some)
    (hcomp : WorkerPool.Completes (waveResult body digests b working) transactions (max 1 workers)
      results) :
    transactions' = transactions ∧
      results = transactions.map (waveResult body digests b working) ∧
        Found body b waves entries := by
  obtain ⟨hwave', hwaves⟩ := List.cons.inj hfound
  refine ⟨?_, ?_, hwaves⟩
  · exact map_injective_iff.2 (Option.some_injective _) (hwave'.symm.trans hwave)
  · exact (WorkerPool.completes_iff (Nat.lt_of_lt_of_le Nat.one_pos (Nat.le_max_left _ _))).1 hcomp

/-! ## Footprints -/

/-- The addresses of what the transactions declare. -/
def footprints (body : T → SignedTransaction) (b : PlannedBlock T) :
    Serial.Footprints (T × Nat) String where
  reads entry address := ∃ key ∈ (literatureDeclaredAccess (body entry.1) b.shardID).1,
    literatureQualifiedKey b.shardID key = address
  writes entry address := ∃ key ∈ (literatureDeclaredAccess (body entry.1) b.shardID).2,
    literatureQualifiedKey b.shardID key = address

section

variable (h : ExecutesWaves body digests root workers b working waves starts out)

include h

lemma ExecutesWaves.eq_wavesFrom
    (hfound : Found body b waves entries) (hdecl : WavesDeclared body digests b starts) :
    (footprints body b).WavesStay (literatureQualifiedKey b.shardID) (txProg body digests b) working
      entries ∧
    ∃ run, out = .ok run ∧ run.1.map rootless = (Serial.wavesFrom (literatureQualifiedKey b.shardID)
        (txProg body digests b) working entries).1.map (fun pair => toDelta body b pair.1 pair.2) ∧
      run.2 = (Serial.wavesFrom (literatureQualifiedKey b.shardID) (txProg body digests b) working
        entries).2 := by
  induction h generalizing entries with
  | done =>
    have hnil : entries = [] := by simpa [Found] using hfound.symm
    rw [hnil]
    exact ⟨trivial, _, rfl, rfl, rfl⟩
  | unknown hid hnone =>
    cases entries with
    | nil => cases hfound
    | cons transactions entries => exact (not_found hid hnone (List.cons.inj hfound).1).elim
  | @next working wave waves transactions results starts rest hwave hcomp hrest ih =>
    cases entries with
    | nil => cases hfound
    | cons transactions' entries =>
      obtain ⟨rfl, rfl, hwaves⟩ := next_found hfound hwave hcomp
      obtain ⟨hstay, run, rfl, hdelt, hst⟩ :=
        ih hwaves fun start hstart => hdecl start (mem_cons_of_mem _ hstart)
      rw [materialize_state] at hstay hdelt hst
      refine ⟨⟨?_, hstay⟩, _, rfl, ?_, hst⟩
      · intro entry hent
        have h := hdecl _ mem_cons_self entry hent
        exact ⟨fun r hr => ⟨r.key, h.1 r hr, rfl⟩, fun key v hkey => ⟨key, h.2 key v hkey, rfl⟩⟩
      simp only [map_append, map_rootless_materialize, hdelt, Serial.wavesFrom, map_map]
      rfl

lemma ExecutesWaves.serial (hfound : Found body b waves entries)
    (hind : ∀ wave ∈ entries, wave.Pairwise (footprints body b).Independent)
    (hdecl : WavesDeclared body digests b starts) :
    ∃ run, out = .ok run ∧
      run.1.map rootless = (serialRun body digests root b working entries.flatten).1.map rootless ∧
      run.2 = (serialRun body digests root b working entries.flatten).2 ∧
      (footprints body b).StaysAll (literatureQualifiedKey b.shardID)
      (txProg body digests b) working
        entries.flatten := by
  obtain ⟨hstay, run, hrun, hdelt, hst⟩ := h.eq_wavesFrom hfound hdecl
  obtain ⟨hserial, hstays⟩ := Serial.wavesFrom_eq hind hstay
  rw [hserial] at hdelt hst
  exact ⟨run, hrun, hdelt.trans (serialRun_eq working entries.flatten).1.symm,
    hst.trans (serialRun_eq working entries.flatten).2.symm, hstays⟩

end

end

end ChainLab.Execution.Literature
