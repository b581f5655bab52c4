/-!
What a search in a window of time found: some of the items in it and how many there are. The number
is never below the number of items at hand.
-/

namespace RemoteNode

/-- Items found in a window of time, out of `count`. -/
structure TimeWindow (α : Type) where
  items : List α
  count : Nat
  length_le : items.length ≤ count

namespace TimeWindow

variable {α : Type}

def empty : TimeWindow α := ⟨[], 0, Nat.le_refl _⟩

instance : Inhabited (TimeWindow α) := ⟨empty⟩

/-- Items with a reported number, which counts only if it is not below the number of items. -/
def ofReport (items : List α) (reported : Nat) : TimeWindow α :=
  ⟨items, max reported items.length, Nat.le_max_right _ _⟩

/-- There are more items in the window than are at hand. -/
def isTruncated (w : TimeWindow α) : Bool := w.items.length < w.count

def isEmpty (w : TimeWindow α) : Bool := w.items.isEmpty

end TimeWindow

end RemoteNode
