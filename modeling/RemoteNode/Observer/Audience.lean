import RemoteNode.Observer.Notice
import RemoteNode.Observer.Registry

/-!
Named observers and the two registries they may be in. An observer that is told something may change
both registries and may let go of observers. A delivery goes to those who are registered and alive
when it begins, whatever is done while it goes on, and keeps them alive until it ends.
-/

namespace RemoteNode.Observer

/-- What may be done to observers and registries. -/
inductive Verb where
  | add (side : Side)
  | remove (side : Side)
  /-- Lets go of an observer. -/
  | drop
  /-- Empties both registries. -/
  | clear
  /-- Counts both registries. -/
  | count
  deriving DecidableEq, Repr

/-- What an observer does when it is told something. -/
inductive Deed where
  /-- Does something to an observer, itself if none is named. -/
  | act (v : Verb) (target : Option String)
  | idle
  | panic
  deriving DecidableEq, Repr

/-- What is returned for a verb. -/
inductive Returned where
  | nothing
  | flag (b : Bool)
  | counts (node connectivity : Nat)
  /-- There was nothing to do it to. -/
  | skipped
  deriving DecidableEq, Repr

/-- An observer that was made. -/
structure Member where
  name : String
  /-- It is told of the chain and the pool alone, and takes no notice. -/
  silent : Bool
  /-- What it does when it is told something. -/
  reaction : Notice → List Deed

/-- Something that an observer was told or did. -/
inductive Entry where
  | told (o : Id) (n : Notice)
  | did (o : Id) (v : Returned)
  deriving DecidableEq

/-- The observers made so far and the registries. -/
structure Audience where
  /-- The observer of an id stands at its place. -/
  members : List Member
  /-- The observers that were not let go of. -/
  kept : List Id
  node : Registry
  connectivity : Registry
  /-- The recipients of the delivery that goes on. -/
  delivery : Option (List Id)

namespace Audience

def empty : Audience := ⟨[], [], [], [], none⟩

def isAlive (a : Audience) (o : Id) : Bool :=
  a.kept.contains o || (a.delivery.getD []).contains o

def registry (a : Audience) : Side → Registry
  | .node => a.node
  | .connectivity => a.connectivity

def setRegistry (a : Audience) (side : Side) (r : Registry) : Audience :=
  match side with
  | .node => { a with node := r }
  | .connectivity => { a with connectivity := r }

def size (a : Audience) (side : Side) : Nat := (a.registry side).size a.isAlive

def isEmpty (a : Audience) (side : Side) : Bool := a.size side == 0

def named? (a : Audience) (name : String) : Option Id :=
  a.kept.find? fun o => (a.members[o]?).any fun m => m.name = name

/-- An observer takes no notice. -/
def isSilent (a : Audience) (o : Id) : Bool := (a.members[o]?).any (·.silent)

def drop (a : Audience) (o : Id) : Audience := { a with kept := a.kept.filter (· != o) }

/-- Makes an observer, which takes the place of the one that went by its name. -/
def make (a : Audience) (m : Member) : Audience :=
  let a := ((a.named? m.name).map a.drop).getD a
  { a with members := a.members ++ [m], kept := a.kept ++ [a.members.length] }

/-- An observer can be in a registry. -/
def fits (a : Audience) (side : Side) (o : Id) : Bool := side = .node || !a.isSilent o

def perform (a : Audience) (v : Verb) (target : Option Id) : Returned × Audience :=
  match v, target with
  | .add side, some o =>
    if a.fits side o then
      let (added, r) := (a.registry side).add a.isAlive o
      (.flag added, a.setRegistry side r)
    else (.skipped, a)
  | .remove side, some o =>
    if a.fits side o then
      let (removed, r) := (a.registry side).remove o
      (.flag removed, a.setRegistry side r)
    else (.skipped, a)
  | .drop, some o => (.nothing, a.drop o)
  | .clear, _ => (.nothing, { a with node := [], connectivity := [] })
  | .count, _ => (.counts (a.size .node) (a.size .connectivity), a)
  | _, none => (.skipped, a)

/-- Does something to the observer of a name. -/
def actOn (a : Audience) (v : Verb) (name : String) : Returned × Audience :=
  a.perform v (a.named? name)

/-- An observer does some things, one by one. A panic drops those that follow it. -/
def react (a : Audience) (o : Id) (m : Member) : List Deed → List Entry × Audience
  | [] => ([], a)
  | .panic :: _ => ([], a)
  | .idle :: rest =>
    let (es, a) := a.react o m rest
    (.did o .skipped :: es, a)
  | .act v target :: rest =>
    let (r, a) := a.actOn v (target.getD m.name)
    let (es, a) := a.react o m rest
    (.did o r :: es, a)

def tell (a : Audience) (n : Notice) (o : Id) : List Entry × Audience :=
  match a.members[o]? with
  | none => ([], a)
  | some m =>
    if m.silent then ([], a)
    else
      let (es, a) := a.react o m (m.reaction n)
      (.told o n :: es, a)

def tellAll (a : Audience) (n : Notice) : List Id → List Entry × Audience
  | [] => ([], a)
  | o :: rest =>
    let (es, a) := a.tell n o
    let (fs, a) := a.tellAll n rest
    (es ++ fs, a)

/-- Those who are told of a notice: registered and alive. -/
def recipients (a : Audience) (n : Notice) : List Id := (a.registry n.side).live a.isAlive

/-- Tells a notice to those who are registered and alive. -/
def notify (a : Audience) (n : Notice) : List Entry × Audience :=
  let everyone := a.recipients n
  let a := a.setRegistry n.side everyone
  let (es, a) := ({ a with delivery := some everyone } : Audience).tellAll n everyone
  (es, { a with delivery := none })

end Audience

end RemoteNode.Observer
