import RemoteNode.Chain.Block

/-!
What observers are told. Changes of the chain and the pool go to one kind of observer, changes of
the connection to another.
-/

namespace RemoteNode.Observer

/-- The two kinds of observers. -/
inductive Side where
  | node
  | connectivity
  deriving DecidableEq, Repr

/-- What observers are told. -/
inductive Notice where
  | peers (count : UInt64)
  /-- The node has a new top block, of this height. -/
  | localHeight (height : UInt32)
  /-- The node knows of a block of this height. -/
  | knownHeight (height : UInt32)
  | header (h : Chain.BlockHeader)
  | pool (added removed : List Hash)
  | connected (b : Bool)
  deriving DecidableEq

/-- The events that notices are about. -/
inductive Event where
  | peers
  | localHeight
  | knownHeight
  | header
  | pool
  | connected
  deriving DecidableEq, Repr

namespace Notice

/-- Who is told. -/
def side : Notice → Side
  | connected _ => .connectivity
  | _ => .node

/-- What a notice is about. -/
def event : Notice → Event
  | peers _ => .peers
  | localHeight _ => .localHeight
  | knownHeight _ => .knownHeight
  | header _ => .header
  | pool _ _ => .pool
  | connected _ => .connected

end Notice

end RemoteNode.Observer
