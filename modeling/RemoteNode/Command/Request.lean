import RemoteNode.Schema.Basic

/-!
What the commands ask for, with the layout of each request.
-/

namespace RemoteNode.Command

/-- Asks for a number of outputs to mix with for each amount. -/
structure DecoyQuery where
  amounts : List UInt64
  count : UInt64
  deriving DecidableEq

/-- A sparse chain of known block ids and the time from which on blocks are wanted. -/
structure ChainQuery where
  ids : List Hash
  timestamp : UInt64
  deriving DecidableEq

/-- A view of the pool: the tail of the chain it belongs to and the transactions in it. -/
structure PoolView where
  tail : Hash
  known : List Hash
  deriving DecidableEq

/-- A span of time, both ends included, and how many items of it are wanted. -/
structure Window (α : Type) where
  first : UInt64
  last : UInt64
  limit : α
  deriving DecidableEq

/-- The place of an output among those of its amount. -/
structure OutputPlace where
  amount : UInt64
  index : UInt32
  deriving DecidableEq

namespace Layout

def empty : Schema Unit := .record .nil ⟨id, id, fun _ => rfl, fun _ => rfl⟩

def single {α : Type} (name : String) (schema : Schema α) : Schema α :=
  .record (.needed name schema .nil) ⟨fun (a, ()) => a, fun a => (a, ()), fun _ => rfl,
    fun _ => rfl⟩

/-- The amounts before the count. -/
def decoyQuery : Schema DecoyQuery :=
  .record (.needed "amounts" (.list .word64) <| .needed "outs_count" .word64 .nil)
    ⟨fun (a, b, ()) => ⟨a, b⟩, fun v => (v.amounts, v.count, ()), fun _ => rfl, fun _ => rfl⟩

/-- The ids before the time. -/
def chainQuery : Schema ChainQuery :=
  .record (.needed "block_ids" (.list .bytes32) <| .needed "timestamp" .word64 .nil)
    ⟨fun (a, b, ()) => ⟨a, b⟩, fun v => (v.ids, v.timestamp, ()), fun _ => rfl, fun _ => rfl⟩

/-- The tail before the transactions. -/
def poolView : Schema PoolView :=
  .record (.needed "tail_block_id" .bytes32 <| .needed "known_txs_ids" (.list .bytes32) .nil)
    ⟨fun (a, b, ()) => ⟨a, b⟩, fun v => (v.tail, v.known, ()), fun _ => rfl, fun _ => rfl⟩

/-- The two ends before the limit. -/
def window {α : Type} (limit : Schema α) : Schema (Window α) :=
  .record (.needed "timestamp_begin" .word64 <| .needed "timestamp_end" .word64 <|
      .needed "limit" limit .nil)
    ⟨fun (a, b, c, ()) => ⟨a, b, c⟩, fun v => (v.first, v.last, v.limit, ()), fun _ => rfl,
     fun _ => rfl⟩

/-- The amount before the place. -/
def outputPlace : Schema OutputPlace :=
  .record (.needed "amount" .word64 <| .needed "gindex" .word32 .nil)
    ⟨fun (a, b, ()) => ⟨a, b⟩, fun v => (v.amount, v.index, ()), fun _ => rfl, fun _ => rfl⟩

end Layout

end RemoteNode.Command
