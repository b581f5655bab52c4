import RemoteNode.Chain.Block
import RemoteNode.Chain.Output
import RemoteNode.Command.Request

/-!
What a node answers to the commands, with the layout of each answer. Every answer carries a status,
first or last; what else it carries is its content.
-/

namespace RemoteNode.Command

open Chain

/-- The content of an answer and the status that comes with it. -/
structure Answer (α : Type) where
  status : String
  content : α
  deriving DecidableEq

def served : String := "OK"

/-- What a node says of itself. -/
structure NodeInfo where
  height : UInt32
  networkHeight : UInt32
  incomingConnections : UInt64
  outgoingConnections : UInt64
  minFee : UInt64
  difficulty : UInt64
  poolSize : UInt64
  synchronized : Bool
  version : String
  deriving DecidableEq

/-- The number of peers, at most the greatest 64-bit word. -/
def NodeInfo.peerCount (i : NodeInfo) : UInt64 :=
  UInt64.ofNat (min (i.incomingConnections.toNat + i.outgoingConnections.toNat) (UInt64.size - 1))

/-- Blocks from a height on. -/
structure BlockRun where
  blocks : List BlockEntry
  startHeight : UInt32
  currentHeight : UInt32
  deriving DecidableEq

/-- Blocks without signatures from a height on. -/
structure LiteRun where
  startHeight : UInt32
  currentHeight : UInt32
  fullOffset : UInt32
  items : List LiteBlock
  deriving DecidableEq

/-- How the pool differs from a view of it. -/
structure PoolChanges where
  /-- The tail of the view is the node's. -/
  tailIsActual : Bool
  added : List Transaction
  deleted : List Hash
  deriving DecidableEq

/-- Some items out of a number of them. -/
structure Excerpt (ι α : Type) where
  items : List α
  count : ι
  deriving DecidableEq

namespace Layout

def statusOnly : Schema (Answer Unit) :=
  .record (.needed "status" .text .nil)
    ⟨fun (s, ()) => ⟨s, ()⟩, fun v => (v.status, ()), fun _ => rfl, fun _ => rfl⟩

def statusFirst {α : Type} (name : String) (schema : Schema α) (missing : Option α) :
    Schema (Answer α) :=
  .record (.needed "status" .text <| .cons name schema missing .nil)
    ⟨fun (s, a, ()) => ⟨s, a⟩, fun v => (v.status, v.content, ()), fun _ => rfl, fun _ => rfl⟩

def statusLast {α : Type} (name : String) (schema : Schema α) : Schema (Answer α) :=
  .record (.needed name schema <| .needed "status" .text .nil)
    ⟨fun (a, s, ()) => ⟨s, a⟩, fun v => (v.content, v.status, ()), fun _ => rfl, fun _ => rfl⟩

/-- Only the status and the height have to be present. -/
def nodeInfo : Schema (Answer NodeInfo) :=
  .record
    (.needed "status" .text <| .needed "height" .word32 <| .defaulted "network_height" .word32 <|
     .defaulted "incoming_connections_count" .word64 <|
     .defaulted "outgoing_connections_count" .word64 <| .defaulted "min_fee" .word64 <|
     .defaulted "difficulty" .word64 <| .defaulted "tx_pool_size" .word64 <|
     .defaulted "synchronized" .flag <| .defaulted "version" .text .nil)
    ⟨fun (s, a, b, c, d, e, f, g, h, i, ()) => ⟨s, a, b, c, d, e, f, g, h, i⟩,
     fun ⟨s, a, b, c, d, e, f, g, h, i⟩ => (s, a, b, c, d, e, f, g, h, i, ()),
     fun _ => rfl, fun _ => rfl⟩

/-- The blocks before the heights and the status. -/
def blockRun : Schema (Answer BlockRun) :=
  .record (.needed "blocks" (.list BlockEntry.schema) <| .needed "start_height" .word32 <|
      .needed "current_height" .word32 <| .needed "status" .text .nil)
    ⟨fun (a, b, c, s, ()) => ⟨s, a, b, c⟩, fun ⟨s, a, b, c⟩ => (a, b, c, s, ()), fun _ => rfl,
     fun _ => rfl⟩

/-- The heights before the blocks and the status. -/
def liteRun : Schema (Answer LiteRun) :=
  .record (.needed "start_height" .word32 <| .needed "current_height" .word32 <|
      .needed "full_offset" .word32 <| .needed "items" (.list LiteBlock.schema) <|
      .needed "status" .text .nil)
    ⟨fun (a, b, c, d, s, ()) => ⟨s, a, b, c, d⟩, fun ⟨s, a, b, c, d⟩ => (a, b, c, d, s, ()),
     fun _ => rfl, fun _ => rfl⟩

/-- The status comes last. -/
def poolChanges : Schema (Answer PoolChanges) :=
  .record (.needed "is_tail_block_actual" .flag <| .needed "added_txs" (.list .bytes) <|
      .needed "deleted_txs_ids" (.list .bytes32) <| .needed "status" .text .nil)
    ⟨fun (a, b, c, s, ()) => ⟨s, a, b, c⟩, fun ⟨s, a, b, c⟩ => (a, b, c, s, ()), fun _ => rfl,
     fun _ => rfl⟩

/-- Only the status has to be present. -/
def excerpt {ι α : Type} [Inhabited ι] (name : String) (item : Schema α) (count : Schema ι) :
    Schema (Answer (Excerpt ι α)) :=
  .record (.needed "status" .text <| .defaulted name (.list item) <|
      .defaulted "count" count .nil)
    ⟨fun (s, a, b, ()) => ⟨s, a, b⟩, fun ⟨s, a, b⟩ => (s, a, b, ()), fun _ => rfl, fun _ => rfl⟩

end Layout

end RemoteNode.Command
