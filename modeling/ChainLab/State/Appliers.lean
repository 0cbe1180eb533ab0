import ChainLab.Data.Result
import ChainLab.State.RootMatches

/-!
# The appliers of state deltas

The runtime applies deltas to the snapshot of a home shard in a loop of its own, and brings the
commitment of the snapshot up to date afterwards, one touched key after the other.
-/

namespace ChainLab.State

open List

variable (sha : Sha) (nameSpace : String)

/-- An error has the height of the block if the delta has none. -/
def applyStateDeltaToSnapshot (blockHeight : Nat) (out : Snapshot) :
    List StateKV → Except CASMismatchError Snapshot
  | [] => .ok out
  | item :: updates =>
    let key := qualifiedKey nameSpace item.key
    if item.orderingNoop then applyStateDeltaToSnapshot blockHeight out updates
    else if item.updateSemantics = "commutative_delta" then
      let current := if out.get key = "" ∧ item.hasInitialValue then item.initialValue
        else (Text.parseInt (out.get key)).number 0
      applyStateDeltaToSnapshot blockHeight
        (out.put key (Text.formatInt (Text.wrap (current + item.delta)))) updates
    else if item.producedVersion = 0 ∧ item.baseValueDigest ≠ "" ∧
        stateValueDigest sha (out.get key) ≠ item.baseValueDigest then
      .error ⟨key, item.baseValueDigest, stateValueDigest sha (out.get key), item.deltaID,
        item.txIDs, if item.blockHeight = 0 then blockHeight else item.blockHeight⟩
    else applyStateDeltaToSnapshot blockHeight (out.put key item.value) updates

def touchedKeys (updates : List StateKV) : GoMap String Bool :=
  updates.foldl (fun touched item => if item.orderingNoop then touched
    else touched.put (qualifiedKey nameSpace item.key) true) ∅

def applyStateDeltaToSnapshotWithCommitment (snapshot : Snapshot) (baseCommitment : Option Tree)
    (updates : List StateKV) (blockHeight : Nat) :
    Except CASMismatchError (Snapshot × Option Tree) :=
  if updates = [] then .ok (snapshot, baseCommitment)
  else (applyStateDeltaToSnapshot sha nameSpace blockHeight snapshot updates).map fun out =>
    (out, baseCommitment.map fun commitment => (touchedKeys nameSpace updates).sortedKeys.foldl
      (fun t key => t.insert (rank sha) key (out.get key)) commitment)

variable {sha nameSpace} {values out : Snapshot} {updates : List StateKV} {commitment : Tree}

lemma applyStateDeltaToSnapshot_eq (sha : Sha) (nameSpace : String) (blockHeight : Nat)
    (values : Snapshot) (updates : List StateKV) :
    applyStateDeltaToSnapshot sha nameSpace blockHeight values updates =
      (applyStateKVs sha nameSpace values updates).mapError fun err =>
        { err with blockHeight :=
          if err.blockHeight = 0 then blockHeight else err.blockHeight } := by
  induction updates generalizing values with
  | nil => rfl
  | cons item updates ih =>
    simp only [applyStateDeltaToSnapshot, applyStateKVs, foldlM_cons, applyStateKV]
    split
    · exact ih values
    split
    · exact ih _
    split
    · rfl
    · exact ih _

section

variable (h : applyStateKVs sha nameSpace values updates = .ok out)

include h

/-- A batch sets the touched keys and no others. -/
lemma find_applyStateKVs (q : String) :
    out.find q = if q ∈ (touchedKeys nameSpace updates).sortedKeys then some (out.get q)
      else values.find q := by
  induction updates using List.reverseRecOn generalizing out with
  | nil =>
    cases h
    simp [touchedKeys, GoMap.mem_sortedKeys]
  | append_singleton updates item ih =>
    rw [applyStateKVs, foldlM_append] at h
    obtain ⟨mid, hmid, h⟩ := Result.bind_eq_ok.1 h
    simp only [foldlM_cons, foldlM_nil, bind_pure] at h
    rcases applyStateKV_cases h with ⟨hnoop, rfl⟩ | ⟨hnoop, value, rfl⟩
    · simpa [touchedKeys, hnoop, GoMap.mem_sortedKeys] using ih hmid
    by_cases hq : q = qualifiedKey nameSpace item.key
    · simp [touchedKeys, hnoop, hq, GoMap.get, GoMap.mem_sortedKeys]
    · simpa [touchedKeys, hnoop, hq, GoMap.find_put, GoMap.get, GoMap.mem_sortedKeys] using ih hmid

lemma commits_touched (hcomm : Tree.Commits sha commitment values) :
    Tree.Commits sha ((touchedKeys nameSpace updates).sortedKeys.foldl
      (fun t key => t.insert (rank sha) key (out.get key)) commitment) out := by
  have hall := Tree.Commits.foldl sha
    ((touchedKeys nameSpace updates).sortedKeys.map fun key => (key, out.get key)) hcomm
  rw [foldl_map] at hall
  exact hall.congr fun q => by rw [find_putAll, find_applyStateKVs h q]

end

/-- The batch of the live database, the replay and the runtime fail together, and otherwise give the
same values; the commitment that the runtime returns has the root of these values. -/
theorem appliers_agree (sha : Sha) (db : DB) (updates : List StateKV) (blockHeight : Nat) :
    match applyStateKVs sha db.nameSpace db.values updates with
    | .error err => (db.applyDeterministicBatch sha updates).2 = some err ∧
        applyStateDeltaToSnapshot sha db.nameSpace blockHeight db.values updates = .error
          { err with blockHeight := if err.blockHeight = 0 then blockHeight else err.blockHeight }
    | .ok values => (db.applyDeterministicBatch sha updates).2 = none ∧
        (db.applyDeterministicBatch sha updates).1.values = values ∧
        applyStateDeltaToSnapshot sha db.nameSpace blockHeight db.values updates = .ok values ∧
        ∀ commitment, Tree.Commits sha commitment db.values → ∃ next,
          applyStateDeltaToSnapshotWithCommitment sha db.nameSpace db.values (some commitment)
            updates
            blockHeight = .ok (values, some next) ∧
              Tree.hash sha next = snapshotRoot sha values := by
  have hlive := applyDeterministicBatch_spec sha updates db
  have hruntime := applyStateDeltaToSnapshot_eq sha db.nameSpace blockHeight db.values updates
  cases hreplay : applyStateKVs sha db.nameSpace db.values updates with
  | error err =>
    rw [hreplay] at hlive hruntime
    exact ⟨hlive, hruntime⟩
  | ok values =>
    rw [hreplay] at hlive hruntime
    refine ⟨hlive.1, hlive.2, hruntime, fun commitment hcomm => ?_⟩
    rw [applyStateDeltaToSnapshotWithCommitment]
    split
    next hnil =>
      subst hnil
      cases hreplay
      exact ⟨commitment, rfl, hcomm.hash⟩
    next =>
      rw [hruntime]
      exact ⟨_, rfl, (commits_touched hreplay hcomm).hash⟩

end ChainLab.State
