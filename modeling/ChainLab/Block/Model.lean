import Mathlib.Data.List.Basic

/-!
# Transactions and blocks

The parts of `tx.SignedTransaction` and `block.Block` that consensus and execution read.  Signature
material, scheduling hints and routing metadata are checked outside the modelled functions and are
left out.  `block.Hash` digests the JSON of a block's core fields: it stays a parameter
`hash : BlockCore → String` of the development, and collision freeness is its injectivity.
-/

namespace ChainLab

/-! ## Transactions -/

inductive AccessMode where
  | read
  | write
  | readWrite
  | commutativeDelta
  | unknown
deriving DecidableEq, Repr

structure AccessItem where
  key : String
  mode : AccessMode
  updateSemantics : String := ""
  delta : Int := 0
deriving DecidableEq, Repr

structure SignedTransaction where
  txID : String
  logicalTxID : String := ""
  traceSourceID : String := ""
  sender : String := ""
  receiver : String := ""
  nonce : Nat := 0
  value : Int := 0
  stateKeys : List String := []
  accessList : List AccessItem := []
  accessListSchema : String := ""
  accessListSource : String := ""
  payload : String := ""
deriving DecidableEq, Repr

/-! ## Blocks -/

/-- The fields of a block that `block.Hash` digests.  `extension` is the JSON of the system state
deltas and of the digests of the execution plan and the proposal evidence. -/
structure BlockCore where
  shardID : String := ""
  height : Nat := 0
  previousHash : String := ""
  proposerID : String := ""
  timestamp : Int := 0
  txIDs : List String := []
  txRoot : String := ""
  stateRootBefore : String := ""
  stateRootAfter : String := ""
  receiptRoot : String := ""
  extension : String := ""
deriving DecidableEq, Repr, Inhabited

structure Block extends BlockCore where
  blockHash : String := ""
  txList : List SignedTransaction := []
deriving DecidableEq, Repr, Inhabited

/-- A block that carries its own digest, as `block.AssignHash` leaves it. -/
def Block.assignHash (hash : BlockCore → String) (b : Block) : Block :=
  { b with blockHash := hash b.toBlockCore }

end ChainLab
