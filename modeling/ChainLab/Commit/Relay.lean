import ChainLab.Pbft.State

/-!
# Messages between shards

A node sends a relay, its finalization and the acknowledgement to the node that `leaderID` names in
the other shard.  Of another shard only the plan is known, so this is the leader of view 0 there.
The receiver tests whether it leads its own shard now; a finalization or an acknowledgement, and a
relay of a transaction that is committed already, end there when it does not.
-/

namespace ChainLab.CrossShard

structure NodePlan where
  nodeID : String
  shardID : String
  leader : Bool := false
  validators : List String := []

def initialLeaderID (plan : List NodePlan) (shard : String) : String :=
  let nodes := plan.filter fun item => item.shardID = shard
  match nodes.find? NodePlan.leader with
  | some item => item.nodeID
  | none =>
    match nodes.find? fun item => item.validators.headD "" ≠ "" with
    | some item => item.validators.headD ""
    | none => (nodes.head?.map NodePlan.nodeID).getD ""

structure Relay where
  txID : String
  logicalTxID : String := ""
  sourceShard : String
  targetShard : String

structure Finalize where
  txID : String
  logicalTxID : String := ""
  sourceShard : String
  targetShard : String

def logicalID (logicalTxID txID : String) : String :=
  if logicalTxID ≠ "" then logicalTxID else txID

inductive Message where
  | relay (m : Relay)
  | finalize (m : Finalize)
  | finalizeAck (m : Finalize)

namespace Message

def shard : Message → String
  | relay m => m.targetShard
  | finalize m => m.sourceShard
  | finalizeAck m => m.targetShard

def id : Message → String
  | relay m => logicalID m.logicalTxID m.txID
  | finalize m | finalizeAck m => logicalID m.logicalTxID m.txID

end Message

/-- How a handler ends: with `nil` at the test of leadership, with an error, or after it has
acted. -/
inductive Disposition where
  | notLeader
  | failed (err : String)
  | handled
deriving DecidableEq

/-- A node in a view of its shard.  `admitTransaction` and `admitRelay` are the reasons for which
the admission plug-in and the pool refuse a transaction, `committed` the transactions of the store,
`stages` the recorded stages. -/
structure Runtime where
  plan : List NodePlan
  node : NodePlan
  view : Nat
  committed : List String := []
  admitTransaction : String → Option String := fun _ => none
  admitRelay : String → Option String := fun _ => none
  relaySource : GoMap String Relay := ∅
  pendingOutboundRelays : GoMap String Relay := ∅
  pendingFinalizeMessages : GoMap String Finalize := ∅
  stages : List (String × String) := []

structure Outcome where
  runtime : Runtime
  sends : List (String × Message) := []
  disposition : Disposition := .handled

namespace Runtime

variable (r : Runtime)

/-- The leader of the node's shard: the configured one, and after a view change the one of the
view. -/
def leader : String :=
  let state :=
    Pbft.State.new r.node.nodeID (initialLeaderID r.plan r.node.shardID) r.node.validators
  if r.view = 0 then state.leaderID else state.leaderForView r.view

def isCurrentLeader : Prop := r.leader = r.node.nodeID

instance : Decidable r.isCurrentLeader := inferInstanceAs (Decidable (_ = _))

def leaderID (shard : String) : String :=
  if shard = r.node.shardID ∧ r.leader ≠ "" then r.leader else initialLeaderID r.plan shard

/-- `recordEvent`: each of these stages is recorded once. -/
def recordStage (id stage : String) : Runtime :=
  if (id, stage) ∈ r.stages then r else { r with stages := r.stages ++ [(id, stage)] }

/-- `queueFinalize` and the first send. -/
def queueFinalize (relay : Relay) : Outcome :=
  let id := logicalID relay.logicalTxID relay.txID
  let finish : Finalize := ⟨relay.txID, id, relay.sourceShard, relay.targetShard⟩
  let next := { r with
    pendingFinalizeMessages := r.pendingFinalizeMessages.put id finish
    relaySource := r.relaySource.delete id }
  let target := r.leaderID relay.sourceShard
  { runtime := next, sends := if target = "" then [] else [(target, .finalize finish)] }

def reconcileCommittedRelay (relay : Relay) : Outcome :=
  let id := logicalID relay.logicalTxID relay.txID
  if r.isCurrentLeader then (r.recordStage id "TargetCommit").queueFinalize relay
  else
    { runtime := { r with relaySource := (r.relaySource.delete id).delete relay.txID }
      disposition := .notLeader }

/-- The look-up after the admission finds what the one before it found. -/
def handleRelay (relay : Relay) : Outcome :=
  let id := logicalID relay.logicalTxID relay.txID
  if relay.txID ∈ r.committed then r.reconcileCommittedRelay relay
  else if (r.relaySource.find id).isSome then { runtime := r }
  else
    let next := { r with relaySource := r.relaySource.put id relay }
    let refused := (r.admitTransaction relay.txID).map ("relay transaction admission " ++ ·) <|>
      ((r.admitRelay relay.txID).filter (· ≠ "duplicate_tx")).map ("relay admission " ++ ·)
    match refused with
    | some err => { runtime := next, disposition := .failed err }
    | none =>
      let peers := r.plan.filter fun node => node.shardID = r.node.shardID ∧
        node.nodeID ≠ r.node.nodeID
      { runtime := next
        sends := if r.isCurrentLeader then peers.map fun node => (node.nodeID, .relay relay)
          else [] }

/-- The checks at the beginning of `handleFinalize` and `handleFinalizeAck`. -/
def checked (kind side shard : String) (finish : Finalize) (act : (id : String) → Outcome) :
    Outcome :=
  let id := logicalID finish.logicalTxID finish.txID
  if id = "" then ⟨r, [], .failed (kind ++ " has empty logical transaction id")⟩
  else if ¬ r.isCurrentLeader then ⟨r, [], .notLeader⟩
  else if shard ≠ "" ∧ shard ≠ r.node.shardID then
    ⟨r, [], .failed (s!"{kind} {side} shard {shard} does not match node shard " ++ r.node.shardID)⟩
  else act id

def handleFinalize (finish : Finalize) : Outcome :=
  r.checked "finalize" "source" finish.sourceShard finish fun id =>
    let next := { r.recordStage id "SourceFinalize" with
      pendingOutboundRelays := r.pendingOutboundRelays.delete id
      relaySource := r.relaySource.delete id }
    let target := r.leaderID finish.targetShard
    if target = "" then
      ⟨next, [], .failed ("finalize ack target leader not found for shard " ++ finish.targetShard)⟩
    else ⟨next, [(target, .finalizeAck finish)], .handled⟩

def handleFinalizeAck (finish : Finalize) : Outcome :=
  r.checked "finalize ack" "target" finish.targetShard finish fun id =>
    ⟨{ r with pendingFinalizeMessages := r.pendingFinalizeMessages.delete id }, [], .handled⟩

def handle : Message → Outcome
  | .relay relay => r.handleRelay relay
  | .finalize finish => r.handleFinalize finish
  | .finalizeAck finish => r.handleFinalizeAck finish

end Runtime

variable {sender receiver : Runtime} {msg : Message}

lemma disposition_checked {kind side shard : String} {finish : Finalize} {act : String → Outcome}
    (hid : logicalID finish.logicalTxID finish.txID ≠ "")
    (hact : ∀ id, (act id).disposition ≠ .notLeader) :
    (receiver.checked kind side shard finish act).disposition = .notLeader ↔
      ¬ receiver.isCurrentLeader := by
  by_cases hlead : receiver.isCurrentLeader
  · simp only [Runtime.checked, hid, hlead, not_true, if_false, iff_false]
    split
    · simp
    · exact hact _
  · simp [Runtime.checked, hid, hlead]

/-- Finalizations and acknowledgements are handled by a leader only, a relay of a transaction that
is not committed by every node. -/
lemma disposition_handle (hid : msg.id ≠ "") : (receiver.handle msg).disposition = .notLeader ↔
      ¬ receiver.isCurrentLeader ∧ ∀ relay, msg = .relay relay →
        relay.txID ∈ receiver.committed := by
  cases msg with
  | relay relay =>
    simp only [Runtime.handle, Runtime.handleRelay, Runtime.reconcileCommittedRelay]
    by_cases hcomm : relay.txID ∈ receiver.committed
    · by_cases hlead : receiver.isCurrentLeader <;>
        simp [hcomm, hlead, Runtime.queueFinalize]
    · simp only [hcomm, if_false, Message.relay.injEq, forall_eq', and_false, iff_false]
      split
      · simp
      · split <;> simp
  | finalize finish =>
    rw [Runtime.handle, Runtime.handleFinalize,
      disposition_checked hid fun id => by dsimp only; split <;> simp]
    simp
  | finalizeAck finish =>
    rw [Runtime.handle, Runtime.handleFinalizeAck, disposition_checked hid fun id => by simp]
    simp

/-- The node that the sender selects in another shard acts on a message exactly when it leads its
shard in its current view as it did in view 0, or gets a relay of a transaction it has not
committed. -/
theorem message_handled_iff (hid : msg.id ≠ "") (hremote : msg.shard ≠ sender.node.shardID)
    (hplan : receiver.plan = sender.plan) (hshard : receiver.node.shardID = msg.shard)
    (hreceiver : receiver.node.nodeID = sender.leaderID msg.shard) :
    (receiver.handle msg).disposition ≠ .notLeader ↔
      receiver.leader = initialLeaderID receiver.plan receiver.node.shardID ∨
        ∃ relay, msg = .relay relay ∧ relay.txID ∉ receiver.committed := by
  have hnode : receiver.node.nodeID = initialLeaderID receiver.plan receiver.node.shardID := by
    rw [hreceiver, Runtime.leaderID, if_neg fun h => hremote h.1, hplan, hshard]
  rw [Ne, disposition_handle hid, Runtime.isCurrentLeader, hnode]
  simp [or_iff_not_imp_left]

/-! Two shards of two nodes; in view 1 the second node of shard `t` leads it. -/

def twoShards : List NodePlan :=
  [⟨"s1", "s", true, ["s1", "s2"]⟩, ⟨"s2", "s", false, ["s1", "s2"]⟩,
    ⟨"t1", "t", true, ["t1", "t2"]⟩, ⟨"t2", "t", false, ["t1", "t2"]⟩]

def nodeS (view : Nat) : Runtime :=
    { plan := twoShards, node := ⟨"s1", "s", true, ["s1", "s2"]⟩, view }

def nodeT (view : Nat) : Runtime :=
    { plan := twoShards, node := ⟨"t1", "t", true, ["t1", "t2"]⟩, view }

def acknowledgement : Message := .finalizeAck ⟨"x", "x", "s", "t"⟩

theorem message_handled_view_two : ((nodeT 2).handle acknowledgement).disposition ≠ .notLeader := by
  have hreceiver : (nodeT 2).node.nodeID = (nodeS 1).leaderID acknowledgement.shard := by
    decide +kernel
  exact (@message_handled_iff (nodeS 1) (nodeT 2) acknowledgement (by decide) (by decide) rfl rfl
    hreceiver).2 (Or.inl (by decide +kernel))

/-- After one view change the acknowledgement ends at a node that no longer leads. -/
theorem acknowledgement_dropped : (nodeS 0).leaderID acknowledgement.shard = (nodeT 1).node.nodeID ∧
      ((nodeT 1).handle acknowledgement).disposition = .notLeader := by
  decide +kernel

end ChainLab.CrossShard
