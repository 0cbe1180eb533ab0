import ChainLab.Pbft.Spec

/-!
# Sequences of calls on one replica

The calls that change a replica's state, with arbitrary arguments and in any order.  A failed call
leaves the state as it was.
-/

namespace ChainLab.Pbft

inductive Call where
  | configureCheckpoint (interval window : Nat)
  | onPrePrepare (msg : PrePrepare)
  | acceptPrepare (msg : Prepare)
  | acceptCommit (msg : Commit)
  | acceptCommitCertificate (cert : CommitCertificate) (b : Block)
  | buildViewChange (newView height : Nat)
  | acceptViewChange (msg : ViewChange)
  | markViewChangeBroadcast (newView : Nat)
  | acceptNewView (msg : NewView)
  | onNewView (msg : NewView)
  | markDurableCommit (b : Block)
  | acceptCheckpoint (msg : Checkpoint)

def stateOr {ε α : Type} (s : State) (result : Except ε (State × α)) : State :=
  match result with
  | .ok (s', _) => s'
  | .error _ => s

lemma stateOr_cases {ε α : Type} (s : State) (result : Except ε (State × α)) :
    stateOr s result = s ∨ ∃ a, result = .ok (stateOr s result, a) := by
  rcases result with e | ⟨s', a⟩
  · exact Or.inl rfl
  · exact Or.inr ⟨a, rfl⟩

section Hash

variable (hash : BlockCore → String)

def State.call (s : State) : Call → State
  | .configureCheckpoint interval window => s.configureCheckpoint interval window
  | .onPrePrepare msg => stateOr s (s.onPrePrepare hash msg)
  | .acceptPrepare msg => stateOr s (s.acceptPrepare msg)
  | .acceptCommit msg => stateOr s (s.acceptCommit msg)
  | .acceptCommitCertificate cert b =>
    stateOr s ((s.acceptCommitCertificate hash cert b).map fun s' => (s', ()))
  | .buildViewChange newView height => stateOr s (s.buildViewChange newView height)
  | .acceptViewChange msg => stateOr s (s.acceptViewChange hash msg)
  | .markViewChangeBroadcast newView => (s.markViewChangeBroadcast newView).1
  | .acceptNewView msg => stateOr s (s.acceptNewView hash msg)
  | .onNewView msg => s.onNewView hash msg
  | .markDurableCommit b => s.markDurableCommit b
  | .acceptCheckpoint msg => stateOr s (s.acceptCheckpoint msg)

/-- The state before call number `i` of a run. -/
abbrev callState (start : State) (calls : List Call) (i : Nat) : State :=
  Run.stateAt (State.call hash) start calls i

end Hash

variable {hash : BlockCore → String} {s s' : State}

/-! ## What a call can do -/

lemma stateOr_induction {ε α : Type} {P : State → Prop} {result : Except ε (State × α)} (hs : P s)
    (hok : ∀ t a, result = .ok (t, a) → P t) : P (stateOr s result) := by
  rcases stateOr_cases s result with h | ⟨a, h⟩
  · rwa [h]
  · exact hok _ a h

/-- The states to which a call leads. -/
inductive Stepped (hash : BlockCore → String) (s : State) : State → Prop
  | kept : Stepped hash s s
  | configured (interval window : Nat) : Stepped hash s (s.configureCheckpoint interval window)
  | locked (msg : PrePrepare) (hvalid : ValidPrePrepare hash s msg) :
      Stepped hash s (s.lockPrePrepare msg)
  | prepare {msg : Prepare} {t : State} {reached : Bool} {count : Nat}
      (hok : s.acceptPrepare msg = .ok (t, reached, count)) : Stepped hash s t
  | commit {msg : Commit} {t : State} {reached : Bool} {count : Nat} {b : Block}
      (hok : s.acceptCommit msg = .ok (t, reached, count, b)) : Stepped hash s t
  | certificate {cert : CommitCertificate} {b : Block} {t : State}
      (hok : s.acceptCommitCertificate hash cert b = .ok t) : Stepped hash s t
  | built : Stepped hash s { s with stage := .viewChange }
  | viewChange {msg : ViewChange} {t : State} {reached : Bool} {count : Nat}
      (hok : s.acceptViewChange hash msg = .ok (t, reached, count)) : Stepped hash s t
  | marked (newView : Nat) : Stepped hash s (s.markViewChangeBroadcast newView).1
  | newView {msg : NewView} {t : State} {b : Option Block}
      (hok : s.acceptNewView hash msg = .ok (t, b)) : Stepped hash s t
  | moved (msg : NewView) (hview : s.viewID < msg.view) :
      Stepped hash s { s with viewID := msg.view, leaderID := msg.leaderID, stage := .idle }
  | durable (b : Block) : Stepped hash s (s.markDurableCommit b)
  | checkpoint {msg : Checkpoint} {t : State} {stable : Bool} {count : Nat}
      {cert : CheckpointCertificate} (hok : s.acceptCheckpoint msg = .ok (t, stable, count, cert)) :
      Stepped hash s t

lemma stepped_call (hash : BlockCore → String) (s : State) (c : Call) :
    Stepped hash s (s.call hash c) := by
  cases c with
  | configureCheckpoint interval window => exact .configured interval window
  | onPrePrepare msg =>
    refine stateOr_induction .kept fun t p hok => ?_
    obtain ⟨hval, rfl, -⟩ := onPrePrepare_eq_ok.1 hok
    exact .locked msg hval
  | acceptPrepare msg => exact stateOr_induction .kept fun t a hok => .prepare hok
  | acceptCommit msg => exact stateOr_induction .kept fun t a hok => .commit hok
  | acceptCommitCertificate cert b =>
    refine stateOr_induction .kept fun t a hok => ?_
    obtain ⟨t', hcert, heq⟩ := Result.map_eq_ok.1 hok
    cases heq
    exact .certificate hcert
  | buildViewChange newView height =>
    refine stateOr_induction .kept fun t vc hok => ?_
    rw [(buildViewChange_ok hok).2.1]
    exact .built
  | acceptViewChange msg => exact stateOr_induction .kept fun t a hok => .viewChange hok
  | markViewChangeBroadcast newView => exact .marked newView
  | acceptNewView msg => exact stateOr_induction .kept fun t b hok => .newView hok
  | onNewView msg =>
    simp only [State.call, State.onNewView]
    split
    · split
      · next hfwd => exact .moved msg hfwd.1
      · exact .kept
    · split
      · exact .newView ‹_›
      · exact .kept
  | markDurableCommit b => exact .durable b
  | acceptCheckpoint msg => exact stateOr_induction .kept fun t a hok => .checkpoint hok

lemma Stepped.sameReplica (h : Stepped hash s s') : SameReplica s s' := by
  cases h with
  | kept | configured | locked | built | moved => exact ⟨rfl, rfl, rfl⟩
  | prepare hok => exact sameReplica_acceptPrepare hok
  | commit hok => exact sameReplica_acceptCommit hok
  | certificate hok =>
    obtain ⟨-, -, -, -, -, rfl⟩ := acceptCommitCertificate_ok hok
    exact ⟨rfl, rfl, rfl⟩
  | viewChange hok => exact sameReplica_acceptViewChange hok
  | marked newView => exact sameReplica_markViewChangeBroadcast newView
  | newView hok => exact sameReplica_acceptNewView hok
  | durable b =>
    unfold State.markDurableCommit
    split <;> exact ⟨rfl, rfl, rfl⟩
  | checkpoint hok =>
    rcases acceptCheckpoint_ok hok with rfl | ⟨_, -, -, -, rfl⟩ <;> exact ⟨rfl, rfl, rfl⟩

end ChainLab.Pbft
