import RemoteNode.Command.Basic
import RemoteNode.Failure
import RemoteNode.TimeWindow

/-!
The operations that callers may ask for. Each is a procedure: it asks the node for one thing after
the other and ends with a result; the first request that fails ends it.
-/

namespace RemoteNode.Session

open Chain Command

/-- A computation that asks a node. -/
inductive Procedure (α : Type) where
  /-- A panic ends it too, with its text as an internal failure. -/
  | done (result : Except Failure α)
  | ask (c : Command) (r : c.Request) (next : c.Content → Procedure α)

namespace Procedure

abbrev value {α : Type} (a : α) : Procedure α := .done (.ok a)

def once {α : Type} (c : Command) (r : c.Request) (f : c.Content → α) : Procedure α :=
  .ask c r fun content => .value (f content)

/-- Runs alone, where `reply` gives the outcome of each request in turn. -/
def run {α : Type} (reply : Nat → (c : Command) → c.Request → Except Exchange.Error c.Content) :
    Nat → Procedure α → Except Failure α
  | _, done result => result
  | n, ask c r next =>
    match reply n c r with
    | .ok content => (next content).run reply (n + 1)
    | .error e => .error (.ofExchange e)

end Procedure

/-- Items of blocks from a height on. -/
structure BlocksFrom (α : Type) where
  items : List α
  startHeight : UInt32
  deriving DecidableEq

/-- What callers may ask for. -/
inductive Operation where
  | feeAddress
  | relay (tx : Transaction)
  | randomOutputs (amounts : List UInt64) (count : UInt64)
  | newBlocks (known : List Hash)
  | outputIndices (transaction : Hash)
  | queryBlocks (known : List Hash) (timestamp : UInt64)
  | poolDifference (known : List Hash) (tail : Hash)
  | multisignatureOutput (amount : UInt64) (index : UInt32)
  | blocksByHeights (heights : List UInt32)
  | blocksByHashes (hashes : List Hash)
  | blocksInWindow (first last : UInt64) (limit : UInt32)
  | block (height : UInt32)
  | transactions (hashes : List Hash)
  | transactionsByPaymentId (id : Hash)
  | poolTransactionsInWindow (first last : UInt64) (limit : UInt32)
  | isSynchronized
  | height
  deriving DecidableEq

namespace Operation

abbrev Result : Operation → Type
  | feeAddress => String
  | relay _ => Unit
  | randomOutputs _ _ => List Decoys
  | newBlocks _ => BlocksFrom BlockEntry
  | outputIndices _ => List UInt32
  | queryBlocks _ _ => BlocksFrom LiteBlock
  | poolDifference _ _ => PoolChanges
  | multisignatureOutput _ _ => MultisignatureOutput
  | blocksByHeights _ => List (List BlockDetails)
  | blocksByHashes _ => List BlockDetails
  | blocksInWindow _ _ _ => TimeWindow BlockDetails
  | block _ => BlockDetails
  | transactions _ | transactionsByPaymentId _ => List TransactionDetails
  | poolTransactionsInWindow _ _ _ => TimeWindow TransactionDetails
  | isSynchronized => Bool
  | height => UInt32

/-- A transaction without bytes is not sent. -/
def relayed (tx : Transaction) : Procedure Unit :=
  if tx.isEmpty then .done (.error (.invalidArgument "empty transaction blob"))
  else .once .sendTransaction tx.hex id

/-- The hashes of the blocks in a window first, then their details. -/
def windowOfBlocks (first last : UInt64) (limit : UInt32) : Procedure (TimeWindow BlockDetails) :=
  if last < first then .value .empty
  else .ask .blockHashesInWindow ⟨first, last, limit⟩ fun found =>
    if found.items.isEmpty then .value (.ofReport [] found.count.toNat)
    else .once .blocksByHashes found.items fun blocks =>
      .ofReport (blocks.take limit.toNat) found.count.toNat

def windowOfPool (first last : UInt64) (limit : UInt32) :
    Procedure (TimeWindow TransactionDetails) :=
  if last < first then .value .empty
  else .once .poolTransactionsInWindow ⟨first, last, limit.toUInt64⟩ fun found =>
    .ofReport (found.items.take limit.toNat) found.count.toNat

/-- The hashes of the transactions with a payment id first, then their details. -/
def paidWith (id : Hash) : Procedure (List TransactionDetails) :=
  .ask .transactionHashesByPaymentId id fun hashes =>
    if hashes.isEmpty then .value []
    else .once .transactionsByHashes hashes fun found => found

def procedure : (o : Operation) → Procedure o.Result
  | feeAddress => .once .feeAddress () id
  | relay tx => relayed tx
  | randomOutputs amounts count => .once .randomOutputs ⟨amounts, count⟩ id
  | newBlocks known => .once .blocks known fun run => ⟨run.blocks, run.startHeight⟩
  | outputIndices transaction => .once .outputIndices transaction id
  | queryBlocks known timestamp =>
    .once .liteBlocks ⟨known, timestamp⟩ fun run => ⟨run.items, run.startHeight⟩
  | poolDifference known tail => .once .poolChanges ⟨tail, known⟩ id
  | multisignatureOutput amount index => .once .multisignatureOutput ⟨amount, index⟩ id
  | blocksByHeights heights => .once .blocksByHeights heights fun blocks => blocks.map ([·])
  | blocksByHashes hashes => .once .blocksByHashes hashes id
  | blocksInWindow first last limit => windowOfBlocks first last limit
  | block h => .once .blockByHeight h id
  | transactions hashes => .once .transactionsByHashes hashes id
  | transactionsByPaymentId id => paidWith id
  | poolTransactionsInWindow first last limit => windowOfPool first last limit
  | isSynchronized => .once .info () fun i => i.synchronized
  | height => .once .height () id

end Operation

end RemoteNode.Session
