import RemoteNode.Bytes32

/-!
The transactions of the pool that have been reported. They are kept in ascending order, each once. A
change drops first and adds then; only what it really changes is reported.
-/

namespace RemoteNode.Session

/-- Ids in ascending order. -/
abbrev PoolIds := List Hash

/-- The effect of a change. -/
structure PoolUpdate where
  added : List Hash
  removed : List Hash
  deriving DecidableEq

def PoolUpdate.isEmpty (u : PoolUpdate) : Bool := u.added.isEmpty && u.removed.isEmpty

namespace PoolIds

def insert (id : Hash) : PoolIds → PoolIds
  | [] => [id]
  | x :: xs => if Bytes32.le id x then id :: x :: xs else x :: insert id xs

/-- Drops ids one by one, and returns those that were there. -/
def dropAll : List Hash → PoolIds → PoolIds × List Hash
  | [], ids => (ids, [])
  | id :: rest, ids =>
    if ids.contains id then
      let (ids, removed) := dropAll rest (ids.erase id)
      (ids, id :: removed)
    else dropAll rest ids

/-- Adds ids one by one, and returns those that were not there. -/
def addAll : List Hash → PoolIds → PoolIds × List Hash
  | [], ids => (ids, [])
  | id :: rest, ids =>
    if ids.contains id then addAll rest ids
    else
      let (ids, added) := addAll rest (insert id ids)
      (ids, id :: added)

/-- Drops and adds ids, and returns the effect. -/
def change (added removed : List Hash) (ids : PoolIds) : PoolIds × PoolUpdate :=
  let (ids, gone) := dropAll removed ids
  let (ids, fresh) := addAll added ids
  (ids, ⟨fresh, gone⟩)

theorem mem_insert {id x : Hash} {ids : PoolIds} : x ∈ insert id ids ↔ x = id ∨ x ∈ ids := by
  induction ids with
  | nil => simp [insert]
  | cons y ys ih =>
    unfold insert
    split
    · simp
    · simp only [List.mem_cons, ih]
      constructor
      · rintro (h | h | h) <;> simp [h]
      · rintro (h | h | h) <;> simp [h]

theorem nodup_insert {id : Hash} {ids : PoolIds} (h : ids.Nodup) (new : id ∉ ids) :
    (insert id ids).Nodup := by
  induction ids with
  | nil => simp [insert]
  | cons y ys ih =>
    obtain ⟨hy, hys⟩ := List.nodup_cons.1 h
    unfold insert
    split
    · exact List.nodup_cons.2 ⟨new, h⟩
    · have hne : y ≠ id := fun e => new (by simp [e])
      refine List.nodup_cons.2 ⟨?_, ih hys (fun m => new (by simp [m]))⟩
      rw [mem_insert]
      rintro (e | m)
      · exact hne e
      · exact hy m

end PoolIds

end RemoteNode.Session
