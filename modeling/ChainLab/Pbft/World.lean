import ChainLab.Pbft.Runtime

/-!
# A network of nodes

The nodes of one shard, their running handlers and everything these have called so far.  A step
starts a handler or lets one make its next call.  The network may lose, delay, repeat and reorder
messages, so a node may be handed any message that carries valid signatures.  A validator in `byz`
does not follow the handlers: it has no node, and it may sign what it likes.
-/

namespace ChainLab.Pbft

open Interleave

/-! ## Signatures -/

/-- The node that signs a message.  A catch-up response is not signed; only its votes are. -/
def Message.sender : Message → String
  | .prePrepare msg => msg.leaderID
  | .prepare msg => msg.nodeID
  | .commit msg => msg.nodeID
  | .viewChange msg => msg.nodeID
  | .newView msg => msg.leaderID
  | .checkpoint msg => msg.nodeID
  | .catchup source _ _ => source

section Signatures

variable (byz : Finset String) (sent : List Message)

/-- Signatures are unforgeable: a message that verifies was sent by its node, or the node is
Byzantine. -/
def Signed (m : Message) : Prop := m.sender ∈ byz ∨ m ∈ sent

/-- `verifyPreparedCertificateAuthentication`. -/
def SignedPrepared (cert : PreparedCertificate) : Prop :=
  ∀ vote ∈ cert.prepares, Signed byz sent (.prepare vote)

/-- `verifyCheckpointCertificateAuthentication`. -/
def SignedCheckpoint (cert : CheckpointCertificate) : Prop :=
  ∀ vote ∈ cert.checkpoints, Signed byz sent (.checkpoint vote)

/-- `verifyPBFTViewChangeAuthentication`. -/
def AuthenticViewChange (vc : ViewChange) : Prop :=
  Signed byz sent (.viewChange vc) ∧ (∀ cert ∈ vc.prepared, SignedPrepared byz sent cert) ∧
    ∀ cert ∈ vc.stableCheckpoint, SignedCheckpoint byz sent cert

/-- What the handlers verify before they look at a message. -/
def Authentic : Message → Prop
  | .viewChange vc => AuthenticViewChange byz sent vc
  | .newView nv => Signed byz sent (.newView nv) ∧
      (∀ vc ∈ nv.viewChanges, AuthenticViewChange byz sent vc) ∧
      ∀ cert ∈ nv.selectedPrepared, SignedPrepared byz sent cert
  | .catchup _ cert _ => ∀ vote ∈ cert.commits, Signed byz sent (.commit vote)
  | m => Signed byz sent m

instance (m : Message) : Decidable (Signed byz sent m) :=
  inferInstanceAs (Decidable (_ ∨ _))

instance (cert : PreparedCertificate) : Decidable (SignedPrepared byz sent cert) :=
  inferInstanceAs (Decidable (∀ vote ∈ cert.prepares, _))

instance (cert : CheckpointCertificate) : Decidable (SignedCheckpoint byz sent cert) :=
  inferInstanceAs (Decidable (∀ vote ∈ cert.checkpoints, _))

instance (vc : ViewChange) : Decidable (AuthenticViewChange byz sent vc) :=
  inferInstanceAs (Decidable (_ ∧ _ ∧ _))

instance (m : Message) : Decidable (Authentic byz sent m) :=
  match m with
  | .prePrepare _ => inferInstanceAs (Decidable (_ ∨ _))
  | .prepare _ => inferInstanceAs (Decidable (_ ∨ _))
  | .commit _ => inferInstanceAs (Decidable (_ ∨ _))
  | .viewChange vc => inferInstanceAs (Decidable (AuthenticViewChange byz sent vc))
  | .newView _ => inferInstanceAs (Decidable (_ ∧ _ ∧ _))
  | .checkpoint _ => inferInstanceAs (Decidable (_ ∨ _))
  | .catchup _ cert _ => inferInstanceAs (Decidable (∀ vote ∈ cert.commits, _))

end Signatures

def Event.Verifies (byz : Finset String) (sent : List Message) : Event → Prop
  | .deliver m => Authentic byz sent m
  | _ => True

/-! ## Steps -/

/-- A call together with what it has returned. -/
abbrev Entry := (op : Op) × op.Res

structure World where
  nodes : String → Node
  log : List (String × Entry) := []

namespace World

/-- One call of a handler at the node `r`. -/
def exec (hash : BlockCore → String) (r : String) (op : Op) (w : World) : op.Res × World :=
  let made := (w.nodes r).exec hash op
  (made.1,
    { nodes := Function.update w.nodes r made.2
      log := w.log ++ [(r, ⟨op, made.1⟩)] })

end World

def system (hash : BlockCore → String) : System String World Event Op Op.Res where
  handler := handle hash
  exec := World.exec hash

abbrev Pool := Interleave.Pool String World Op Op.Res

abbrev Act := Interleave.Act String Event

namespace Entry

def message : Entry → Option Message
  | ⟨.send m, _⟩ => some m
  | _ => none

/-- The view change that BuildViewChange returns. -/
def built : Entry → Option ViewChange
  | ⟨.buildViewChange _ _, .ok vc⟩ => some vc
  | _ => none

/-- The view, height and block that AcceptCommit has reached a quorum for, or
AcceptCommitCertificate has taken over. -/
def decided : Entry → Option (Nat × Nat × String)
  | ⟨.acceptCommit c, .ok (true, _)⟩ => some (c.view, c.height, c.blockHash)
  | ⟨.voteCommit c, .ok (true, _)⟩ => some (c.view, c.height, c.blockHash)
  | ⟨.acceptCommitCertificate cert _, .ok ()⟩ => some (cert.view, cert.height, cert.blockHash)
  | _ => none

end Entry

namespace World

def sent (w : World) : List Message := w.log.filterMap fun entry => entry.2.message

/-- The decisions so far, each with the node that obtained it. -/
def decisions (w : World) : List (String × Nat × Nat × String) :=
  w.log.filterMap fun entry => entry.2.decided.map fun decision => (entry.1, decision)

/-- The view changes that a node has built so far. -/
def built (w : World) (r : String) : List ViewChange :=
  w.log.filterMap fun entry => if entry.1 = r then entry.2.built else none

end World

lemma mem_built_exec {hash : BlockCore → String} {w : World} {r q : String} {op : Op}
    {vc : ViewChange} :
    vc ∈ (w.exec hash r op).2.built q ↔ vc ∈ w.built q ∨
      q = r ∧ Entry.built ⟨op, ((w.nodes r).exec hash op).1⟩ = some vc := by
  simp [World.exec, World.built, List.filterMap_append, eq_comm]

namespace Pool

def init (shardID leaderID : String) (validators : List String) (interval window : Nat) : Pool where
  world :=
    { nodes := fun r => { Node.new shardID r leaderID validators with
        state := (State.new r leaderID validators).configureCheckpoint interval window } }
  threads _ := []

/-- The pool before act number `i` of a run. -/
abbrev runAt (hash : BlockCore → String) (start : Pool) (acts : List Act) (i : Nat) : Pool :=
  Run.stateAt (Interleave.Pool.step (system hash)) start acts i

/-- The world before act number `i` of a run. -/
abbrev worldAt (hash : BlockCore → String) (start : Pool) (acts : List Act) (i : Nat) : World :=
  (start.runAt hash acts i).world

end Pool

/-- A handler starts at a correct node, and what it is handed carries valid signatures. -/
def Enabled (validators : List String) (byz : Finset String) (w : World) : Act → Prop
  | .start r e => r ∈ validators ∧ r ∉ byz ∧ e.Verifies byz w.sent
  | .resume _ _ => True

section Runs

variable (hash : BlockCore → String) (validators : List String) (byz : Finset String)
  (start : Pool) (acts : List Act)

def Legal : Prop :=
  ∀ i a, acts[i]? = some a → Enabled validators byz (start.worldAt hash acts i) a

/-- No two nodes decide different blocks at one height. -/
def Agreement : Prop :=
  ∀ i r r' view view' height blockHash blockHash',
    (r, view, height, blockHash) ∈ (start.worldAt hash acts i).decisions →
    (r', view', height, blockHash') ∈ (start.worldAt hash acts i).decisions → blockHash = blockHash'

/-- A NEW-VIEW selects a block for a height, or a certificate of a greater height. -/
def Selects (nv : NewView) (height : Nat) (blockHash : String) : Prop :=
  ∃ cert, nv.selectedPrepared = some cert ∧
    (height < cert.height ∨ cert.height = height ∧ cert.blockHash = blockHash)

/-- Once a block is decided at a height, every NEW-VIEW of a later view that a node below this
height finds valid selects it. -/
def CommitsSurvive : Prop :=
  ∀ i r view height blockHash,
    (r, view, height, blockHash) ∈ (start.worldAt hash acts i).decisions →
    ∀ r' nv, r' ∈ validators → r' ∉ byz →
      Authentic byz (start.worldAt hash acts i).sent (.newView nv) →
      ((start.worldAt hash acts i).nodes r').state.validateNewView hash nv = .ok () →
      view < nv.view → ((start.worldAt hash acts i).nodes r').committedHeight < height →
      Selects nv height blockHash

end Runs

/-! ## Rules the handlers do not enforce -/

/-- The call that an act makes, and the node that makes it. -/
def Pool.callOf (pool : Pool) : Act → Option (String × Op)
  | .start _ _ => none
  | .resume r k => (pool.op? r k).map fun op => (r, op)

/-- Every call of a run satisfies `P` in the world before it. -/
def EveryCall (hash : BlockCore → String) (start : Pool) (acts : List Act)
    (P : World → String → Op → Prop) : Prop :=
  ∀ i a, acts[i]? = some a → ∀ c ∈ (start.runAt hash acts i).callOf a,
    P (start.worldAt hash acts i) c.1 c.2

/-- A vote of the current view is for the node's next height, and the node has built no view change
to a later view; a view change is built for the next height. -/
def Orderly (w : World) (r : String) : Op → Prop
  | .votePrepare p => p.view = (w.nodes r).state.viewID →
      p.height = (w.nodes r).nextHeight ∧ ∀ vc ∈ w.built r, vc.newView ≤ p.view
  | .voteCommit c => c.view = (w.nodes r).state.viewID →
      c.height = (w.nodes r).nextHeight ∧ ∀ vc ∈ w.built r, vc.newView ≤ c.view
  | .buildViewChange _ height => height = (w.nodes r).nextHeight
  | _ => True

/-- A view change is built only when no other correct node has a lower durable height, and no view
is entered that selects a block ahead of the node's next height. -/
def InStep (validators : List String) (byz : Finset String) (w : World) (r : String) : Op → Prop
  | .buildViewChange _ _ =>
    ∀ r' ∈ validators, r' ∉ byz → (w.nodes r).committedHeight ≤ (w.nodes r').committedHeight
  | .acceptNewView nv => (w.nodes r).state.viewID < nv.view →
      ∀ cert ∈ nv.selectedPrepared, cert.height ≤ (w.nodes r).nextHeight
  | _ => True

section Rules

variable (hash : BlockCore → String) (validators : List String) (byz : Finset String)
  (start : Pool) (acts : List Act)

def OrderlyRun : Prop := EveryCall hash start acts Orderly

def InStepRun : Prop := EveryCall hash start acts (InStep validators byz)

end Rules

/-! ## Runs can be checked -/

/-- Every event is handled to its end before the next one, with at most thirteen calls each;
`started` counts the handlers that a node has started before. -/
def oneByOne (events : List (String × Event)) (started : String → Nat := fun _ => 0) : List Act :=
  match events with
  | [] => []
  | (r, e) :: events =>
    .start r e :: List.replicate 13 (.resume r (started r)) ++
      oneByOne events (Function.update started r (started r + 1))

instance (byz : Finset String) (sent : List Message) (e : Event) :
    Decidable (e.Verifies byz sent) :=
  match e with
  | .deliver m => inferInstanceAs (Decidable (Authentic byz sent m))
  | .propose _ | .retransmit | .timeout _ | .rebroadcastViewChange | .serveCatchup _
  | .commitDurable _ _ => isTrue trivial

instance (validators : List String) (byz : Finset String) (w : World) (a : Act) :
    Decidable (Enabled validators byz w a) :=
  match a with
  | .start _ _ => inferInstanceAs (Decidable (_ ∧ _ ∧ _))
  | .resume _ _ => isTrue trivial

instance (w : World) (r : String) (op : Op) : Decidable (Orderly w r op) :=
  match op with
  | .votePrepare _ => inferInstanceAs (Decidable (_ → _ ∧ _))
  | .voteCommit _ => inferInstanceAs (Decidable (_ → _ ∧ _))
  | .buildViewChange _ _ => inferInstanceAs (Decidable (_ = _))
  | .get | .isDuplicatePrePrepare _ _ _ | .onPrePrepare _ | .acceptPrepare _ | .acceptCommit _
  | .markViewChangeBroadcast _ | .acceptViewChange _ | .voteViewChange _ | .acceptNewView _
  | .acceptCommitCertificate _ _ | .acceptCheckpoint _ | .voteCheckpoint _ | .markDurableCommit _
  | .commit _ | .enqueue _ | .setProposal _ | .resetProposal | .setTarget _ | .send _ =>
    isTrue trivial

instance (validators : List String) (byz : Finset String) (w : World) (r : String) (op : Op) :
    Decidable (InStep validators byz w r op) :=
  match op with
  | .buildViewChange _ _ => inferInstanceAs (Decidable (∀ r' ∈ validators, _))
  | .acceptNewView nv => inferInstanceAs (Decidable (_ → ∀ cert ∈ nv.selectedPrepared, _))
  | .get | .isDuplicatePrePrepare _ _ _ | .onPrePrepare _ | .acceptPrepare _ | .votePrepare _
  | .acceptCommit _ | .voteCommit _ | .markViewChangeBroadcast _ | .acceptViewChange _
  | .voteViewChange _ | .acceptCommitCertificate _ _ | .acceptCheckpoint _ | .voteCheckpoint _
  | .markDurableCommit _ | .commit _ | .enqueue _ | .setProposal _ | .resetProposal | .setTarget _
  | .send _ => isTrue trivial

section Check

variable (hash : BlockCore → String) (validators : List String) (byz : Finset String)
  (start : Pool) (acts : List Act)

instance : Decidable (Legal hash validators byz start acts) :=
  decidable_of_iff' _ (Run.forall_inputs_iff : _ ↔ Run.Along (Interleave.Pool.step (system hash))
    (fun pool a => Enabled validators byz pool.world a) start acts)

instance (P : World → String → Op → Prop) [∀ w r op, Decidable (P w r op)] :
    Decidable (EveryCall hash start acts P) :=
  decidable_of_iff' _ (Run.forall_inputs_iff : _ ↔ Run.Along (Interleave.Pool.step (system hash))
    (fun pool a => ∀ c ∈ Pool.callOf pool a, P pool.world c.1 c.2) start acts)

instance : Decidable (OrderlyRun hash start acts) :=
  inferInstanceAs (Decidable (EveryCall hash start acts Orderly))

instance : Decidable (InStepRun hash validators byz start acts) :=
  inferInstanceAs (Decidable (EveryCall hash start acts (InStep validators byz)))

end Check

/-- Four nodes, with `a` the leader of view 0 and `b` that of view 1. -/
def fourNodes : Pool := Pool.init "" "a" ["a", "b", "c", "d"] 20 200

end ChainLab.Pbft
