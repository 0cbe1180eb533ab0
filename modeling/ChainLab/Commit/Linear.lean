import ChainLab.Commit.Node
import ChainLab.Home.Materialize

/-!
# The committed chain

For every sequence of tasks and of answers of the parts that a commit calls, the blocks that were
applied form a chain from the head at the start to the present head (`durable_chain_linear`).  A
commit that does not apply its block leaves the head of the chain and the values of the database.
-/

namespace ChainLab.Commit

open State (Sha StateKV DB)
open Home (SystemStateDelta)

variable (sha : Sha)

/-! ## Chains of rows -/

/-- The rows lead from a head of the chain to another one. -/
inductive ChainFrom : Nat → String → List ChainRow → Nat → String → Prop where
  | nil (height : Nat) (hash : String) : ChainFrom height hash [] height hash
  | cons {height height' : Nat} {hash hash' : String} {row : ChainRow} {rows : List ChainRow}
      (hheight : row.height = height + 1) (hparent : row.previousHash = hash)
      (hrest : ChainFrom row.height row.blockHash rows height' hash') :
      ChainFrom height hash (row :: rows) height' hash'

namespace ChainFrom

variable {height height' height'' : Nat} {hash hash' hash'' : String} {rows rows' : List ChainRow}

lemma append (h : ChainFrom height hash rows height' hash')
    (h' : ChainFrom height' hash' rows' height'' hash'') :
    ChainFrom height hash (rows ++ rows') height'' hash'' := by
  induction h with
  | nil => exact h'
  | cons hht hpar _ ih => exact .cons hht hpar (ih h')

lemma heights (h : ChainFrom height hash rows height' hash') :
    rows.map ChainRow.height = List.range' (height + 1) rows.length := by
  induction h with
  | nil => rfl
  | cons hht _ _ ih => rw [List.map_cons, ih, hht, List.length_cons, List.range'_succ]

end ChainFrom

/-! ## A commit that does not apply its block -/

def Settled (db : DB) : Prop :=
  db.root sha = State.Tree.hash sha (State.treeOf sha db.values)

/-- The head of the chain, and the state, as they were. -/
structure Unchanged (n n' : Node) : Prop where
  height : n'.committedHeight = n.committedHeight
  hash : n'.committedHash = n.committedHash
  rows : n'.chainRows = n.chainRows
  values : n'.home.db.values = n.home.db.values
  root : Settled sha n.home.db → n'.home.db.root sha = n.home.db.root sha

lemma Unchanged.refl (n : Node) : Unchanged sha n n :=
  ⟨rfl, rfl, rfl, rfl, fun _ => rfl⟩

namespace Node

variable (n : Node) (block : Block)

lemma rollbackCommitFailure_unchanged (answers : Answers) (db : DB) (cause : String) :
    Unchanged sha n (n.rollbackCommitFailure sha block answers db cause).1 ∧
      (n.rollbackCommitFailure sha block answers db cause).2.disposition = .rejected := by
  have hroot : Settled sha n.home.db →
      (db.restore sha n.home.db.values).root sha = n.home.db.root sha := fun h => h.symm
  unfold rollbackCommitFailure
  simp only
  split <;> exact ⟨⟨rfl, rfl, rfl, rfl, hroot⟩, rfl⟩

lemma fail_unchanged (answers : Answers) (db : DB) (failure : Failure) :
    Unchanged sha n (n.fail sha block answers db failure).1 ∧
      (n.fail sha block answers db failure).2.disposition = .rejected := by
  cases failure with
  | plain message => exact ⟨.refl sha n, rfl⟩
  | rollback message => exact rollbackCommitFailure_unchanged sha n block answers db message
  | deterministic message => exact ⟨⟨rfl, rfl, rfl, rfl, fun _ => rfl⟩, rfl⟩

lemma execute_cases (answers : Answers) {out : Node × CommitResult}
    (h : n.execute sha block answers = out) :
    (out.2.disposition = .rejected ∧ Unchanged sha n out.1) ∨
      (out.2.disposition = .applied ∧ out.1.committedHeight = block.height ∧
        out.1.committedHash = block.blockHash ∧
        out.1.chainRows = n.chainRows ++ [⟨block.height, block.blockHash, block.previousHash⟩] ∧
        out.1.pendingCommits = n.pendingCommits.delete (block.height + 1) ∧
        out.2.block = n.pendingCommits.get (block.height + 1)) := by
  subst h
  -- The publication of versions before the execution leaves the database.
  have hpub := Home.Runtime.publishSystemStateDeltaVersions_only n.home block.systemStateDeltas
  have hfailed : ∀ (db : DB) (failure : Failure),
      let m := { n with home := n.home.publishSystemStateDeltaVersions block.systemStateDeltas }
      (m.fail sha block answers db failure).2.disposition = .rejected ∧
        Unchanged sha n (m.fail sha block answers db failure).1 := by
    intro db failure m
    obtain ⟨hsame, hrej⟩ := fail_unchanged sha m block answers db failure
    have hdb : m.home.db = n.home.db := hpub.db
    refine ⟨hrej, ?_⟩
    exact
      { hsame with
        values := hsame.values.trans (congrArg DB.values hdb)
        root := fun hsett => by
          have hroot := hsame.root (hdb ▸ hsett)
          rwa [hdb] at hroot }
  unfold execute
  split
  · exact .inl ⟨rfl, .refl sha n⟩
  · exact .inl ⟨rfl, .refl sha n⟩
  simp only
  split
  · exact .inl (hfailed _ _)
  split
  · exact .inl (hfailed _ _)
  split
  · exact .inl (hfailed _ _)
  · exact .inr ⟨rfl, rfl, rfl, rfl, rfl, rfl⟩

lemma admission_proceed {n : Node} {block : Block} {origin : CommitOrigin} {answers : Answers}
    (h : n.admission block origin answers = .proceed) :
    block.height = n.committedHeight + 1 ∧ block.previousHash = n.committedHash := by
  unfold admission at h
  split at h
  · cases h
  split at h
  · cases h
  split at h
  · cases h
  split at h
  · cases h
  split at h
  · cases h
  split at h
  · cases h
  split at h
  · cases h
  · rename_i hlow hhigh hpar
    exact ⟨by omega, Decidable.not_not.1 hpar⟩

lemma commitOnce_cases (origin : CommitOrigin) (answers : Answers) {out : Node × CommitResult}
    (h : n.commitOnce sha block origin answers = out) :
    (out.2.disposition ≠ .applied ∧ Unchanged sha n out.1) ∨ (out.2.disposition = .applied ∧
        block.height = n.committedHeight + 1 ∧ block.previousHash = n.committedHash ∧
        out.1.committedHeight = block.height ∧ out.1.committedHash = block.blockHash ∧
        out.1.chainRows = n.chainRows ++ [⟨block.height, block.blockHash, block.previousHash⟩] ∧
        out.1.pendingCommits = n.pendingCommits.delete (block.height + 1) ∧
        out.2.block = n.pendingCommits.get (block.height + 1)) := by
  subst h
  unfold commitOnce
  split
  · exact .inl ⟨by simp [rejected], .refl sha n⟩
  rename_i txIDs _
  simp only
  split
  · exact .inl ⟨by simp [rejected], .refl sha n⟩
  · exact .inl ⟨by simp, .refl sha n⟩
  · exact .inl ⟨by simp, rfl, rfl, rfl, rfl, fun _ => rfl⟩
  rename_i hadm
  obtain ⟨hht, hpar⟩ := admission_proceed hadm
  rcases execute_cases sha
      { n with committing := n.committing.put block.blockHash true }
      { block with txIDs := txIDs } answers rfl with
    ⟨hrej, hsame⟩ | ⟨happ, hht', hhash', hrows, hpend, hnext⟩
  · left
    refine ⟨?_, hsame.height, hsame.hash, hsame.rows, hsame.values, hsame.root⟩
    rw [hrej]
    simp
  · exact .inr ⟨happ, hht, hpar, hht', hhash', hrows, hpend, hnext⟩

/-! ## Tasks -/

/-- A run leads from one head of the chain to another one, and the rows tell how. -/
def Grows (n n' : Node) : Prop :=
  ∃ rows, n'.chainRows = n.chainRows ++ rows ∧
    ChainFrom n.committedHeight n.committedHash rows n'.committedHeight n'.committedHash

lemma Grows.refl (n : Node) : Grows n n :=
  ⟨[], (List.append_nil _).symm, .nil _ _⟩

lemma Grows.trans {n n' n'' : Node} (h : Grows n n') (h' : Grows n' n'') : Grows n n'' := by
  obtain ⟨rows, hrows, hchain⟩ := h
  obtain ⟨rows', hrows', hchain'⟩ := h'
  refine ⟨rows ++ rows', ?_, hchain.append hchain'⟩
  rw [hrows', hrows, List.append_assoc]

lemma grows_of_unchanged {n n' : Node} (h : Unchanged sha n n') : Grows n n' := by
  refine ⟨[], h.rows.trans (List.append_nil _).symm, ?_⟩
  rw [h.height, h.hash]
  exact .nil _ _

lemma commitOnce_grows (origin : CommitOrigin) (answers : Answers) :
    Grows n (n.commitOnce sha block origin answers).1 := by
  rcases commitOnce_cases sha n block origin answers rfl with
    ⟨-, hsame⟩ | ⟨-, hht, hpar, hht', hhash', hrows, -⟩
  · exact grows_of_unchanged sha hsame
  refine ⟨_, hrows, ?_⟩
  rw [hht', hhash']
  exact .cons hht hpar (.nil _ _)

lemma pendingError_grows (message : String) : Grows n (n.pendingError block message) :=
  .refl n

lemma drainPendingCommits_grows (origin : CommitOrigin) (answers : Nat → Answers) (fuel i : Nat)
    (n : Node) (next : Block) : Grows n (n.drainPendingCommits sha origin answers fuel i next) := by
  induction fuel generalizing i n next with
  | zero => exact .refl n
  | succ fuel ih =>
    simp only [drainPendingCommits]
    split
    · exact .refl n
    have hone := commitOnce_grows sha n next origin (answers i)
    split
    · rename_i n' _ _ _ heq
      rw [heq] at hone
      exact hone.trans (pendingError_grows n' next _)
    · rename_i n' following heq
      rw [heq] at hone
      exact hone.trans (ih (i + 1) n' following)
    · rename_i n' _ _ _ heq
      rw [heq] at hone
      exact hone.trans (pendingError_grows n' next _)

lemma commitWithOrigin_grows (origin : CommitOrigin)
    (answers : Nat → Answers) : Grows n (n.commitWithOrigin sha block origin answers).1 := by
  unfold commitWithOrigin
  split
  · exact .refl n
  split
  · exact .refl n
  have hone := commitOnce_grows sha n block origin (answers 0)
  simp only
  split
  · exact hone.trans (drainPendingCommits_grows sha origin answers _ _ _ _)
  · exact hone

lemma commitWithOrigin_unchanged (origin : CommitOrigin) (answers : Nat → Answers)
    (h : (n.commitWithOrigin sha block origin answers).2.disposition ≠ .applied) :
    Unchanged sha n (n.commitWithOrigin sha block origin answers).1 := by
  unfold commitWithOrigin at h ⊢
  split
  · exact .refl sha n
  split
  · exact .refl sha n
  rename_i hpersistence hexecution
  simp only [hpersistence, hexecution, if_false] at h ⊢
  rcases commitOnce_cases sha n block origin (answers 0) rfl with ⟨hnot, hsame⟩ | ⟨happ, -⟩
  · rw [if_neg hnot]
    exact hsame
  · rw [if_pos happ] at h
    exact absurd happ h

/-! ## The loop over the pending blocks -/

lemma drainPendingCommits_fuel (origin : CommitOrigin) (answers : Nat → Answers) {fuel fuel' : Nat}
    (i : Nat) (n : Node) (next : Block) (hfuel : n.pendingCommits.len < fuel)
    (hfuel' : n.pendingCommits.len < fuel') :
    n.drainPendingCommits sha origin answers fuel i next =
      n.drainPendingCommits sha origin answers fuel' i next := by
  induction fuel generalizing fuel' i n next with
  | zero => cases hfuel
  | succ fuel ih =>
    cases fuel' with
    | zero => cases hfuel'
    | succ fuel' =>
      simp only [drainPendingCommits]
      split
      · rfl
      cases hone : n.commitOnce sha next origin (answers i) with
      | mk n' result =>
        have hcases := commitOnce_cases sha n next origin (answers i) hone
        obtain ⟨disposition, following, error⟩ := result
        cases error with
        | some message => rfl
        | none =>
          cases disposition with
          | applied =>
            rcases hcases with ⟨hnot, -⟩ | ⟨-, -, -, -, -, -, hpend, hnext⟩
            · exact absurd rfl hnot
            cases hfind : n.pendingCommits.find (next.height + 1) with
            | none =>
              -- No block waits: the loop is over in the next round, with any bound.
              have hemp : following.blockHash = "" := by
                have hdefault : following = default := hnext.trans (by rw [GoMap.get, hfind]; rfl)
                rw [hdefault]
                rfl
              cases fuel <;> cases fuel' <;> simp [drainPendingCommits, hemp]
            | some waiting =>
              have hlen : n'.pendingCommits.len < n.pendingCommits.len := by
                rw [hpend]
                exact GoMap.len_delete_lt hfind
              exact ih (i + 1) n' following (by omega) (by omega)
          | alreadyApplied | deferred | rejected => rfl

/-- The loop over the pending blocks ends by itself: more rounds than these change nothing. -/
theorem drainPendingCommits_ends (origin : CommitOrigin) (answers : Nat → Answers) (more i : Nat)
    (n : Node) (next : Block) :
    n.drainPendingCommits sha origin answers (n.pendingCommits.len + 1 + more) i next =
      n.drainPendingCommits sha origin answers (n.pendingCommits.len + 1) i next :=
  drainPendingCommits_fuel sha origin answers i n next (by omega) (by omega)

end Node

/-! ## Runs -/

lemma Worker.step_grows (w : Worker) (event : Event) : w.node.Grows (w.step sha event).node := by
  cases event with
  | enqueue kind block origin =>
    simp only [Worker.step, Worker.enqueueCommitTask]
    split
    · exact .refl _
    split
    · exact .refl _
    split
    · exact .refl _
    · split <;> exact .refl _
  | work answers =>
    simp only [Worker.step, Worker.work]
    split
    · exact .refl _
    · exact Node.commitWithOrigin_grows sha w.node _ _ answers
  | commit block origin answers => exact Node.commitWithOrigin_grows sha w.node block origin answers

lemma Worker.run_grows (w : Worker) (events : List Event) :
    w.node.Grows (w.run sha events).node := by
  induction events generalizing w with
  | nil => exact .refl _
  | cons event events ih => exact (w.step_grows sha event).trans (ih (w.step sha event))

/-- Whatever tasks come and wherever they fail: the blocks applied form a chain with consecutive
heights, and a commit or a task that does not apply its block leaves the head, the values and, where
it was the one of the values, the root. -/
theorem durable_chain_linear (w : Worker) (events : List Event) :
    (∃ rows, (w.run sha events).node.chainRows = w.node.chainRows ++ rows ∧
      ChainFrom w.node.committedHeight w.node.committedHash rows
        (w.run sha events).node.committedHeight (w.run sha events).node.committedHash ∧
      rows.map ChainRow.height = List.range' (w.node.committedHeight + 1) rows.length) ∧
    (∀ (n : Node) (block : Block) (origin : CommitOrigin) (answers : Answers),
      (n.commitOnce sha block origin answers).2.disposition ≠ .applied →
        Unchanged sha n (n.commitOnce sha block origin answers).1) ∧
    ∀ (n : Node) (block : Block) (origin : CommitOrigin) (answers : Nat → Answers),
      (n.commitWithOrigin sha block origin answers).2.disposition ≠ .applied →
        Unchanged sha n (n.commitWithOrigin sha block origin answers).1 := by
  refine ⟨?_, ?_, ?_⟩
  · obtain ⟨rows, hrows, hchain⟩ := w.run_grows sha events
    exact ⟨rows, hrows, hchain, hchain.heights⟩
  · intro n block origin answers hnot
    rcases Node.commitOnce_cases sha n block origin answers rfl with ⟨-, hsame⟩ | ⟨happlied, -⟩
    · exact hsame
    · exact absurd happlied hnot
  · intro n block origin answers hnot
    exact Node.commitWithOrigin_unchanged sha n block origin answers hnot

/-! ## A rollback that changes the root -/

def legacyNoop : SystemStateDelta :=
  Home.systemStateDeltaFromRequest State.plainSha { key := "a", homeShard := "s0", orderingNoop :=
    true }

def firstBlock : Block :=
  { blockHash := "b1", height := 1, systemStateDeltas := [legacyNoop] }

def secondBlock : Block :=
  { blockHash := "b2", previousHash := "b1", height := 2 }

def newNode : Node :=
  { home := { stateAccessPartitionID := "s0", db := DB.new "s0" } }

/-- The second block cannot be written to the store; the rollback takes the empty entry of the no-op
out of the commitment, and with it out of the root. -/
theorem rollback_changes_root :
    let n := (newNode.commitOnce State.plainSha firstBlock .consensus {}).1
    let failed :=
      n.commitOnce State.plainSha secondBlock .consensus { durableCommit := some "disk full" }
    n.committedHeight = 1 ∧ failed.2.disposition = .rejected ∧
      failed.1.home.db.root State.plainSha ≠ n.home.db.root State.plainSha := by
  decide +kernel

end ChainLab.Commit
