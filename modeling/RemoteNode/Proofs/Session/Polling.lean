import RemoteNode.Proofs.Session.PoolChange
import RemoteNode.Proofs.Session.Steps

/-! What a refresh learns from a node that does not change. A refresh goes through stages; a pass
says what is known at each of them, and how a stage leads to the next. Three passes are made: one
from anywhere, one after a refresh has succeeded, and one in which nothing changes any more. -/

namespace RemoteNode.Session

/-- A node that does not change. -/
structure Node where
  nodeHeight : UInt32
  knownHeight : UInt32
  peerCount : UInt64
  minFee : UInt64
  header : Chain.BlockHeader
  pool : List Chain.Transaction

namespace Node

/-- The ids of the pool. -/
def ids (n : Node) : List Hash := n.pool.map Chain.Transaction.id

/-- The node has peers. -/
def isConnected (n : Node) : Bool := 0 < n.peerCount

/-- What the node answers at a stage: how it stands, its top header, and how its pool differs from a
view of it if the tail of the view is its own. -/
def Answers (n : Node) : (g : Stage) → g.command.Content → Prop
  | .info, i => i.height = n.nodeHeight ∧ highest i = n.knownHeight ∧ i.peerCount = n.peerCount ∧
      i.minFee = n.minFee
  | .header, r => r.header = n.header
  | .pool view, c => c.tailIsActual = decide (view.tail = n.header.hash) ∧
      (view.tail = n.header.hash →
        (∀ tx, tx ∈ c.added ↔ tx ∈ n.pool ∧ tx.id ∉ view.known) ∧
          ∀ id, id ∈ c.deleted ↔ id ∈ view.known ∧ id ∉ n.ids)

end Node

/-- What a refresh reads and writes. -/
structure Poller where
  chain : ChainView
  memory : Memory

namespace Poller

/-- The view that the pool is asked with. -/
def view (p : Poller) : Command.PoolView := ⟨p.chain.header.hash, p.memory.known⟩

/-- The poller with another connectivity. -/
def setConnected (p : Poller) (b : Bool) : Poller :=
  { p with memory := { p.memory with connected := b } }

/-- The poller with another top header. -/
def setHeader (p : Poller) (h : Chain.BlockHeader) : Poller :=
  ⟨(p.chain.withHeader h).2, { p.memory with headerDue := false }⟩

end Poller

namespace Node
variable {n : Node} {p : Poller} {c : ChainView} {b : Bool}

/-- What the node says of itself is known. -/
structure Informed (n : Node) (c : ChainView) : Prop where
  fee : c.minimalFee = n.minFee
  peers : c.peerCount = n.peerCount
  known : n.knownHeight ≤ c.knownHeight
  height : n.nodeHeight ≤ c.nodeHeight

/-- The node was asked how it stands, and what is told of the connectivity is true. -/
structure Met (n : Node) (p : Poller) : Prop where
  informed : n.Informed p.chain
  connected : p.memory.connected = n.isConnected

/-- The tail is the node's, or the header is due. -/
def Aware (n : Node) (p : Poller) : Prop :=
  p.memory.headerDue = true ∨ p.chain.header.hash = n.header.hash

/-- The tail is the node's, and the header is not asked for in vain. -/
structure Placed (n : Node) (p : Poller) : Prop where
  tail : p.chain.header.hash = n.header.hash
  notDue : p.memory.headerDue = false
  header : p.chain.header.hash.isZero = true → p.chain.header = n.header

/-- All that is known is true of the node. -/
structure Steady (n : Node) (p : Poller) : Prop where
  informed : n.Informed p.chain
  placed : n.Placed p
  pool : ∀ id, id ∈ p.memory.known ↔ id ∈ n.ids

/-- Nothing has changed but the connectivity. -/
structure Kept (q p : Poller) : Prop where
  chain : p.chain = q.chain
  known : p.memory.known = q.memory.known
  notDue : p.memory.headerDue = q.memory.headerDue

theorem mem_ids {id : Hash} : id ∈ n.ids ↔ ∃ tx ∈ n.pool, tx.id = id := List.mem_map

theorem Placed.aware (h : n.Placed p) : n.Aware p := .inr h.tail

theorem placed_setHeader (p : Poller) : n.Placed (p.setHeader n.header) :=
  ⟨rfl, rfl, fun _ => rfl⟩

/-- What the node answers about a pool whose tail it shares brings the pool over. -/
theorem mem_of_pool {a : Command.PoolChanges} (nodup : p.memory.known.Nodup)
    (honest : n.Answers (.pool p.view) a) (tail : p.chain.header.hash = n.header.hash) (id : Hash) :
    id ∈ (p.memory.known.change (a.added.map Chain.Transaction.id) a.deleted).1 ↔ id ∈ n.ids := by
  obtain ⟨added, deleted⟩ := honest.2 tail
  rw [PoolIds.mem_change nodup, List.mem_map]
  constructor
  · rintro (⟨known, still⟩ | ⟨tx, new, rfl⟩)
    · by_contra gone
      exact still ((deleted id).mpr ⟨known, gone⟩)
    · exact mem_ids.mpr ⟨tx, ((added tx).mp new).1, rfl⟩
  · intro inPool
    obtain ⟨tx, inPool', rfl⟩ := mem_ids.mp inPool
    by_cases known : tx.id ∈ p.memory.known
    · exact .inl ⟨known, fun gone => ((deleted _).mp gone).2 inPool⟩
    · exact .inr ⟨tx, (added tx).mpr ⟨inPool', known⟩, rfl⟩

/-- What the node answers about a pool that is known changes nothing. -/
theorem change_of_pool {a : Command.PoolChanges} (honest : n.Answers (.pool p.view) a)
    (tail : p.chain.header.hash = n.header.hash)
    (pool : ∀ id, id ∈ p.memory.known ↔ id ∈ n.ids) :
    p.memory.known.change (a.added.map Chain.Transaction.id) a.deleted =
      (p.memory.known, ⟨[], []⟩) := by
  obtain ⟨added, deleted⟩ := honest.2 tail
  refine PoolIds.change_eq_self (fun id gone _ => ((deleted id).mp gone).2 ?_) fun id new => ?_
  · exact (pool id).mp ((deleted id).mp gone).1
  · obtain ⟨tx, inAdded, rfl⟩ := List.mem_map.mp new
    exact (pool _).mpr (mem_ids.mpr ⟨tx, ((added tx).mp inAdded).1, rfl⟩)

end Node

namespace ChainView
variable {c : ChainView} {h : UInt32}

theorem max_eq_self {a b : UInt32} (le : b ≤ a) : max a b = a := by
  rw [UInt32.le_iff_toNat_le] at le
  apply UInt32.toNat_inj.mp
  change (if a ≤ b then b else a).toNat = _
  split
  · rename_i le'
    rw [UInt32.le_iff_toNat_le] at le'
    omega
  · rfl

theorem le_max (a b : UInt32) : b ≤ max a b := by
  change b ≤ if a ≤ b then b else a
  split
  · exact UInt32.le_refl b
  · rename_i more
    rw [UInt32.le_iff_toNat_le] at more ⊢
    omega

theorem raiseNode_of_le (le : h ≤ c.nodeHeight) : c.raiseNode h = (false, c) := by
  have still : ¬c.nodeHeight < h := UInt32.not_lt.mpr le
  rw [raiseNode, max_eq_self le, decide_eq_false still]

theorem raiseKnown_of_le (le : h ≤ c.knownHeight) : c.raiseKnown h = (false, c) := by
  have still : ¬c.knownHeight < h := UInt32.not_lt.mpr le
  rw [raiseKnown, max_eq_self le, decide_eq_false still]

theorem withPeers_eq_self {n : UInt64} (same : c.peerCount = n) : c.withPeers n = (false, c) := by
  subst same
  simp [withPeers]

theorem withHeader_eq_self {b : Chain.BlockHeader} (same : c.header = b) :
    c.withHeader b = (false, c) := by
  subst same
  simp [withHeader]

end ChainView

/-- What is known at every stage of a refresh, and how a stage leads to the next. -/
structure Pass (n : Node) where
  /-- At any time. -/
  base : Poller → Prop
  /-- While the top header is asked for. -/
  heading : Poller → Prop
  /-- While the pool is asked for. -/
  pooling : Poller → Prop
  /-- Once the refresh has succeeded. -/
  after : Poller → Prop
  of_pooling : ∀ p, pooling p → base p
  of_after : ∀ p, after p → base p
  connected : ∀ p b, base p → base (p.setConnected b)
  connected_heading : ∀ p b, heading p → heading (p.setConnected b)
  fee : ∀ p, base p → base { p with chain := { p.chain with minimalFee := n.minFee } }
  peers : ∀ p, base p → base { p with chain := (p.chain.withPeers n.peerCount).2 }
  known : ∀ p, base p → base { p with chain := (p.chain.raiseKnown n.knownHeight).2 }
  height : ∀ p, base p → base { p with chain := (p.chain.raiseNode n.nodeHeight).2 }
  raised : ∀ p, base p → (p.chain.raiseNode n.nodeHeight).1 = true →
    heading { p with chain := (p.chain.raiseNode n.nodeHeight).2 }
  asks : ∀ p, base p → p.memory.headerDue = true ∨ p.chain.header.hash.isZero = true → heading p
  skips : ∀ p, base p → p.memory.headerDue = false → p.chain.header.hash.isZero = false → pooling p
  header : ∀ p, heading p → pooling (p.setHeader n.header)
  actual : ∀ p a, pooling p → n.Met p → p.memory.known.Nodup →
    p.chain.header.hash = n.header.hash → n.Answers (.pool p.view) a →
    after { p with memory := { p.memory with
      known := (p.memory.known.change (a.added.map Chain.Transaction.id) a.deleted).1 } }
  outdated : ∀ p, pooling p → p.chain.header.hash ≠ n.header.hash →
    after { p with memory := { p.memory with headerDue := true } }

namespace Pass
variable {n : Node}

/-- From anywhere. -/
def first (n : Node) : Pass n where
  base _ := True
  heading _ := True
  pooling _ := True
  after := n.Aware
  of_pooling _ _ := trivial
  of_after _ _ := trivial
  connected _ _ _ := trivial
  connected_heading _ _ _ := trivial
  fee _ _ := trivial
  peers _ _ := trivial
  known _ _ := trivial
  height _ _ := trivial
  raised _ _ _ := trivial
  asks _ _ _ := trivial
  skips _ _ _ _ := trivial
  header _ _ := trivial
  actual _ _ _ _ _ tail _ := .inr tail
  outdated _ _ _ := .inl rfl

/-- Once a refresh has succeeded. -/
def second (n : Node) : Pass n where
  base := n.Aware
  heading := n.Aware
  pooling := n.Placed
  after := n.Steady
  of_pooling _ h := h.aware
  of_after _ h := h.placed.aware
  connected _ _ h := h
  connected_heading _ _ h := h
  fee _ h := h
  peers _ h := h
  known _ h := h
  height _ h := h
  raised _ h _ := h
  asks _ h _ := h
  skips p h notDue known := by
    refine ⟨?_, notDue, fun zero => ?_⟩
    · rcases h with due | tail
      · rw [notDue] at due
        cases due
      · exact tail
    · rw [known] at zero
      cases zero
  header p _ := Node.placed_setHeader p
  actual _ _ placed met nodup tail honest :=
    ⟨met.informed, ⟨tail, placed.notDue, placed.header⟩, Node.mem_of_pool nodup honest tail⟩
  outdated _ placed other := absurd placed.tail other

/-- When all that is known is true of the node. -/
def steady {q : Poller} (h : n.Steady q) : Pass n where
  base := Node.Kept q
  heading p := Node.Kept q p ∧ q.chain.header = n.header
  pooling := Node.Kept q
  after := Node.Kept q
  of_pooling _ kept := kept
  of_after _ kept := kept
  connected _ _ kept := ⟨kept.chain, kept.known, kept.notDue⟩
  connected_heading _ _ kept := ⟨⟨kept.1.chain, kept.1.known, kept.1.notDue⟩, kept.2⟩
  fee p kept := by
    refine ⟨?_, kept.known, kept.notDue⟩
    change { p.chain with minimalFee := n.minFee } = q.chain
    rw [kept.chain, ← h.informed.fee]
  peers p kept := by
    refine ⟨?_, kept.known, kept.notDue⟩
    rw [kept.chain, ChainView.withPeers_eq_self h.informed.peers]
  known p kept := by
    refine ⟨?_, kept.known, kept.notDue⟩
    rw [kept.chain, ChainView.raiseKnown_of_le h.informed.known]
  height p kept := by
    refine ⟨?_, kept.known, kept.notDue⟩
    rw [kept.chain, ChainView.raiseNode_of_le h.informed.height]
  raised p kept raised := by
    rw [kept.chain, ChainView.raiseNode_of_le h.informed.height] at raised
    cases raised
  asks p kept why := by
    refine ⟨kept, ?_⟩
    rcases why with due | zero
    · rw [kept.notDue, h.placed.notDue] at due
      cases due
    · exact h.placed.header (kept.chain ▸ zero)
  skips _ kept _ _ := kept
  header p kept := by
    refine ⟨?_, kept.1.known, h.placed.notDue.symm⟩
    change (p.chain.withHeader n.header).2 = q.chain
    rw [kept.1.chain, ChainView.withHeader_eq_self kept.2]
  actual p a kept _ _ tail honest := by
    refine ⟨kept.chain, ?_, kept.notDue⟩
    have same := Node.change_of_pool honest tail (kept.known ▸ h.pool)
    rw [same]
    exact kept.known
  outdated p kept other := absurd (kept.chain ▸ h.placed.tail) other

end Pass

end RemoteNode.Session
