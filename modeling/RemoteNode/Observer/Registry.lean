/-!
Registered observers: an ordered set that does not keep its members alive. Those that are gone are
dropped when another is added or a delivery begins. A delivery goes to the members that are alive
when it begins, in the order in which they were added.
-/

namespace RemoteNode.Observer

/-- An observer, told apart from every other that ever was. -/
abbrev Id := Nat

/-- The registered observers, first added first. -/
abbrev Registry := List Id

namespace Registry

def live (alive : Id → Bool) (r : Registry) : Registry := r.filter alive

/-- Adds an observer at the end; tells whether it was not registered yet. -/
def add (alive : Id → Bool) (o : Id) (r : Registry) : Bool × Registry :=
  let kept := r.live alive
  if kept.contains o then (false, kept) else (true, kept ++ [o])

def remove (o : Id) (r : Registry) : Bool × Registry :=
  (r.contains o, r.filter (· != o))

def size (alive : Id → Bool) (r : Registry) : Nat := (r.live alive).length

theorem mem_live {alive : Id → Bool} {r : Registry} {o : Id} :
    o ∈ r.live alive ↔ o ∈ r ∧ alive o = true := by simp [live]

/-- Exactly the removed observer is missing. -/
theorem mem_remove {r : Registry} {o p : Id} : p ∈ (r.remove o).2 ↔ p ∈ r ∧ p ≠ o := by
  simp [remove]

/-- Adding and removing keep members apart. -/
theorem nodup_add {alive : Id → Bool} {r : Registry} {o : Id} (h : r.Nodup) :
    (r.add alive o).2.Nodup := by
  have kept : (r.live alive).Nodup := h.sublist List.filter_sublist
  simp only [add]
  split
  · exact kept
  · rename_i hc
    refine List.nodup_append.2 ⟨kept, by simp, ?_⟩
    rintro a ha b hb rfl
    simp only [List.mem_singleton] at hb
    subst hb
    exact hc (List.contains_iff_mem.2 ha)

theorem nodup_remove {r : Registry} {o : Id} (h : r.Nodup) : (r.remove o).2.Nodup :=
  h.sublist List.filter_sublist

end Registry

end RemoteNode.Observer
