import ChainLab.Block.Model
import ChainLab.Data.GoMap
import ChainLab.Data.Text

/-!
# The mempool

`Mempool` keeps the pending transactions of a node: the map `byID`, the list `order` of their
identifiers in the order of admission, the reservations of the transactions that a proposal holds,
and the nonces of the senders.  Every method runs under the pool's mutex, so it is one step on the
state.  Times and durations are nanoseconds; `tx.Verify` is a parameter that answers with the text
of the error.
-/

namespace ChainLab.Mempool

/-! ## Nonces -/

/-- `account.NonceManager`: the next nonce of each sender. -/
abbrev NonceManager := GoMap String Nat

namespace NonceManager

def expected (m : NonceManager) (sender : String) : Nat :=
  m.get sender

/-- A nonce must be the next one: gaps are not held back but refused. -/
def validate (m : NonceManager) (sender : String) (nonce : Nat) : Option String :=
  let got :=
    ": expected " ++ Text.formatUint (expected m sender) ++ " got " ++ Text.formatUint nonce
  if nonce < expected m sender then some ("stale_nonce" ++ got)
  else if expected m sender < nonce then some ("future_nonce_not_supported" ++ got)
  else none

/-- Moves the nonce of the sender on, modulo the range of `uint64`. -/
def accept (m : NonceManager) (sender : String) (nonce : Nat) : Except String NonceManager :=
  match validate m sender nonce with
  | some err => .error err
  | none => .ok (m.put sender ((nonce + 1) % 2 ^ 64))

end NonceManager

/-! ## Data -/

/-- Bounds on the number and on the age of the transactions. -/
structure Policy where
  capacity : Int
  ttl : Int
deriving DecidableEq, Repr

def defaultPolicy : Policy where
  capacity := 10000
  ttl := 10 * 60 * 1000000000

/-- What has happened to a transaction. -/
inductive Action where
  | accepted
  | rejected
  | expired
deriving DecidableEq, Repr

/-- The record of an admission, a refusal or an expiry. -/
structure AdmissionResult where
  accepted : Bool
  txID : String
  sender : String
  receiver : String
  nonce : Nat
  action : Action
  rejectReason : String := ""
  nodeID : String
  shardID : String
  mempoolSize : Nat
  queueWaitMS : Int := 0
  timestamp : Int
deriving DecidableEq, Repr

/-- A pending transaction with its time of admission. -/
structure Entry where
  tx : SignedTransaction
  admittedAt : Int
  seq : Nat
deriving DecidableEq, Repr

/-- `mempool.Mempool` without its mutex. -/
structure Pool where
  nodeID : String := ""
  shardID : String := ""
  policy : Policy
  nonces : NonceManager := ∅
  byID : GoMap String Entry := ∅
  order : List String := []
  nextSeq : Nat := 0
  reserved : GoMap String Bool := ∅

/-! ## Clock -/

/-- `Time.Sub`, which saturates at the bounds of a duration. -/
def sub (now before : Int) : Int :=
  max (-(2 ^ 63)) (min (2 ^ 63 - 1) (now - before))

/-- `Time.UnixMilli` rounds down. -/
def unixMilli (now : Int) : Int :=
  now.fdiv 1000000

/-- `Duration.Milliseconds` rounds towards zero. -/
def milliseconds (d : Int) : Int :=
  d.tdiv 1000000

/-- `reasonOf`: the text of an error up to its first colon. -/
def reasonOf (err : String) : String :=
  String.ofList (err.toList.takeWhile (· ≠ ':'))

namespace Pool

/-! ## Methods -/

/-- Bounds that are not positive are replaced by the default ones. -/
def new (nodeID shardID : String) (policy : Policy) (nonces : NonceManager) : Pool where
  nodeID := nodeID
  shardID := shardID
  policy :=
    { capacity := if policy.capacity ≤ 0 then defaultPolicy.capacity else policy.capacity
      ttl := if policy.ttl ≤ 0 then defaultPolicy.ttl else policy.ttl }
  nonces := nonces

def hasLocked (m : Pool) (txID : String) : Bool :=
  (m.byID.find txID).isSome

def rejected (m : Pool) (t : SignedTransaction) (reason : String) (now : Int) :
    AdmissionResult where
  accepted := false
  txID := t.txID
  sender := t.sender
  receiver := t.receiver
  nonce := t.nonce
  action := .rejected
  rejectReason := reason
  nodeID := m.nodeID
  shardID := m.shardID
  mempoolSize := m.byID.len
  timestamp := unixMilli now

/-- The end of `admitAt`: the transaction is stored at the end of the order. -/
def store (m : Pool) (item : SignedTransaction) (now : Int) : Pool :=
  { m with
    nextSeq := m.nextSeq + 1
    byID := m.byID.put item.txID ⟨item, now, m.nextSeq + 1⟩
    order := m.order ++ [item.txID] }

def accepted (m : Pool) (item : SignedTransaction) (now : Int) : AdmissionResult where
  accepted := true
  txID := item.txID
  sender := item.sender
  receiver := item.receiver
  nonce := item.nonce
  action := .accepted
  nodeID := m.nodeID
  shardID := m.shardID
  mempoolSize := m.byID.len
  timestamp := unixMilli now

/-- Checks the transaction, then its identifier, the capacity and last the nonce, so that a refused
transaction uses up no nonce. -/
def admitAt (verify : SignedTransaction → Option String) (m : Pool) (item : SignedTransaction)
    (now : Int) (enforceNonce : Bool) : Pool × AdmissionResult :=
  match verify item with
  | some err => (m, m.rejected item (reasonOf err) now)
  | none =>
    if m.hasLocked item.txID then (m, m.rejected item "duplicate_tx" now)
    else if m.policy.capacity ≤ m.byID.len then (m, m.rejected item "capacity_exceeded" now)
    else
      -- A relayed transaction is no part of the nonce stream of this shard.
      match if enforceNonce then NonceManager.accept m.nonces item.sender item.nonce
          else .ok m.nonces with
      | .error err => (m, m.rejected item (reasonOf err) now)
      | .ok nonces =>
        let stored := { m with nonces := nonces }.store item now
        (stored, stored.accepted item now)

/-- Takes a transaction out of all three tables. -/
def removeLocked (m : Pool) (txID : String) : Pool × Bool :=
  if m.hasLocked txID then
    ({ m with
        byID := m.byID.delete txID
        reserved := m.reserved.delete txID
        order := m.order.filter (· ≠ txID) }, true)
  else (m, false)

/-- The loop of `PopReady`. -/
def popFrom : List String → Pool → List SignedTransaction → Pool × List SignedTransaction
  | [], m, out => (m, out)
  | id :: ids, m, out =>
    match m.byID.find id with
    | some e => popFrom ids (m.removeLocked id).1 (out ++ [e.tx])
    | none => popFrom ids m out

/-- Hands out the oldest transactions and forgets them. -/
def popReady (m : Pool) (limit : Int) : Pool × List SignedTransaction :=
  popFrom (m.order.take limit.toNat) m []

/-- The loop of `ReserveReady`, which passes over the transactions that are reserved already. -/
def reserveFrom (limit : Nat) : List String → Pool → List SignedTransaction →
    Pool × List SignedTransaction
  | [], m, out => (m, out)
  | id :: ids, m, out =>
    if limit ≤ out.length then (m, out)
    else if m.reserved.get id then reserveFrom limit ids m out
    else
      match m.byID.find id with
      | some e =>
        reserveFrom limit ids { m with reserved := m.reserved.put id true } (out ++ [e.tx])
      | none => reserveFrom limit ids m out

/-- Hands out the oldest free transactions and keeps them, reserved. -/
def reserveReady (m : Pool) (limit : Int) : Pool × List SignedTransaction :=
  reserveFrom limit.toNat m.order m []

def unreserve (m : Pool) (txID : String) : Pool :=
  { m with reserved := m.reserved.delete txID }

/-- The block is final: its transactions leave the pool. -/
def commitReserved (m : Pool) (items : List SignedTransaction) : Pool :=
  items.foldl (fun m item => ((m.unreserve item.txID).removeLocked item.txID).1) m

/-- The proposal is given up: its transactions are free again. -/
def releaseReserved (m : Pool) (items : List SignedTransaction) : Pool :=
  items.foldl (fun m item => m.unreserve item.txID) m

def expiredResult (m : Pool) (e : Entry) (now : Int) : AdmissionResult where
  accepted := false
  txID := e.tx.txID
  sender := e.tx.sender
  receiver := e.tx.receiver
  nonce := e.tx.nonce
  action := .expired
  rejectReason := "ttl_expired"
  nodeID := m.nodeID
  shardID := m.shardID
  mempoolSize := m.byID.len
  queueWaitMS := milliseconds (sub now e.admittedAt)
  timestamp := unixMilli now

/-- The loop of `Expire`. -/
def expireFrom (now : Int) : List String → Pool → List AdmissionResult → Pool × List AdmissionResult
  | [], m, expired => (m, expired)
  | id :: ids, m, expired =>
    match m.byID.find id with
    | some e =>
      if m.policy.ttl < sub now e.admittedAt then
        let removed := (m.removeLocked id).1
        expireFrom now ids removed (expired ++ [removed.expiredResult e now])
      else expireFrom now ids m expired
    | none => expireFrom now ids m expired

/-- Removes the transactions that are older than the policy allows. -/
def expire (m : Pool) (now : Int) : Pool × List AdmissionResult :=
  if m.policy.ttl ≤ 0 then (m, [])
  else expireFrom now m.order m []

end Pool

/-! ## Runs -/

/-- The methods that change a pool, with their arguments. -/
inductive Call where
  | admitTx (item : SignedTransaction) (now : Int) (enforceNonce : Bool)
  | popReady (limit : Int)
  | reserveReady (limit : Int)
  | commitReserved (items : List SignedTransaction)
  | releaseReserved (items : List SignedTransaction)
  | remove (txID : String)
  | expire (now : Int)
deriving DecidableEq, Repr

/-- What a call returns. -/
inductive Answer where
  | admission (result : AdmissionResult)
  | handedOut (items : List SignedTransaction)
  | removed (done : Bool)
  | expired (results : List AdmissionResult)
  | done
deriving DecidableEq, Repr

/-- The calls of a run with their answers. -/
abbrev Trace := List (Call × Answer)

namespace Pool

variable (verify : SignedTransaction → Option String)

def step (m : Pool) : Call → Pool × Answer
  | .admitTx item now enforceNonce =>
    let (m', result) := m.admitAt verify item now enforceNonce
    (m', .admission result)
  | .popReady limit =>
    let (m', items) := m.popReady limit
    (m', .handedOut items)
  | .reserveReady limit =>
    let (m', items) := m.reserveReady limit
    (m', .handedOut items)
  | .commitReserved items => (m.commitReserved items, .done)
  | .releaseReserved items => (m.releaseReserved items, .done)
  | .remove txID =>
    let (m', done) := m.removeLocked txID
    (m', .removed done)
  | .expire now =>
    let (m', results) := m.expire now
    (m', .expired results)

def run (m : Pool) (trace : Trace) : List Call → Pool × Trace
  | [] => (m, trace)
  | call :: calls =>
    let (m', answer) := m.step verify call
    run m' (trace ++ [(call, answer)]) calls

end Pool

end ChainLab.Mempool
