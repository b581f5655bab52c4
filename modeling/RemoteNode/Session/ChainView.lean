import RemoteNode.Chain.Block
import RemoteNode.Command.Answer

/-!
What is known of the node's chain. Heights only grow until everything is forgotten.
-/

namespace RemoteNode.Session

open Chain

/-- What is known of the node's chain. -/
structure ChainView where
  peerCount : UInt64
  nodeHeight : UInt32
  knownHeight : UInt32
  minimalFee : UInt64
  header : BlockHeader
  deriving DecidableEq

namespace ChainView

def initial : ChainView := ⟨0, 0, 0, 0, default⟩

instance : Inhabited ChainView := ⟨initial⟩

/-- Takes the peer count; tells whether it changed. -/
def withPeers (v : ChainView) (n : UInt64) : Bool × ChainView :=
  (v.peerCount != n, { v with peerCount := n })

/-- Raises the height the node knows of; tells whether it was lower. -/
def raiseKnown (v : ChainView) (h : UInt32) : Bool × ChainView :=
  (v.knownHeight < h, { v with knownHeight := max v.knownHeight h })

/-- Raises the node's own height; tells whether it was lower. -/
def raiseNode (v : ChainView) (h : UInt32) : Bool × ChainView :=
  (v.nodeHeight < h, { v with nodeHeight := max v.nodeHeight h })

/-- Takes the top header; tells whether it is of another block. -/
def withHeader (v : ChainView) (h : BlockHeader) : Bool × ChainView :=
  (v.header.hash != h.hash, { v with header := h })

/-- One more, at most the greatest word. -/
def succ32 (n : UInt32) : UInt32 := if n = 0xFFFFFFFF then n else n + 1

/-- The number of blocks up to the top header. -/
def localCount (v : ChainView) : UInt32 := succ32 v.header.index

def knownCount (v : ChainView) : UInt32 := succ32 v.knownHeight

end ChainView

/-- The height of the highest block a node knows of. -/
def highest (i : Command.NodeInfo) : UInt32 := max i.networkHeight i.height

end RemoteNode.Session
