import RemoteNode.Schema.Basic
import RemoteNode.Json.Tree

/-!
Values of a schema as JSON. A record is written as an object with all members in order. It is read
from an object with its members in any order, none twice and others skipped, or from an array that
lists the leading members; a member that is missing takes the value that stands in for it.
-/

namespace RemoteNode

open Json (Value Tree)

mutual

/-- The JSON form of a value. -/
def Schema.toJson {α : Type} : Schema α → α → Value
  | .byte, n => .natural n.toNat
  | .word16, n => .natural n.toNat
  | .word32, n => .natural n.toNat
  | .word64, n => .natural n.toNat
  | .integer64, n => .integer n.toInt
  | .flag, b => .flag b
  | .double, d => if d.isFinite then .double d else .null
  | .text, s => .text s
  | .bytes32, id => .text id.text
  | .list item, vs => .array (vs.map item.toJson)
  | .record members view, v => .object (members.toJson (view.parts v))
  | .variant tag cases view, v => .object (cases.toJson tag (view.parts v))

def Members.toJson {β : Type} : Members β → β → List (String × Value)
  | .nil, _ => []
  | .cons name schema _ rest, (v, vs) => (name, schema.toJson v) :: rest.toJson vs

/-- The tag of a case, then its members. -/
def Cases.toJson {β : Type} (tag : String) : Cases β → β → List (String × Value)
  | .nil, v => nomatch v
  | .cons name members _, .inl v => (tag, .text name) :: members.toJson v
  | .cons _ _ rest, .inr v => rest.toJson tag v

end

namespace Json

/-- The integer a number stands for, if it lies in `0 ≤ n < bound`. -/
def Tree.natural? (bound : Nat) : Tree → Option Nat
  | .number n =>
    match n.integer? with
    | some (.ofNat v) => if v < bound then some v else none
    | _ => none
  | _ => none

/-- The integer a number stands for, if a signed 64-bit word holds it. -/
def Tree.int64? : Tree → Option Int64
  | .number n =>
    match n.integer? with
    | some v =>
      if Int64.minValue.toInt ≤ v ∧ v ≤ Int64.maxValue.toInt then some (Int64.ofInt v) else none
    | none => none
  | _ => none

/-- The double a number stands for; an integer is rounded to the nearest double. -/
def Tree.double? : Tree → Option Double
  | .number n =>
    match n.integer? with
    | some v => some (Double.ofMagnitude (v < 0) (Double.ofNat v.natAbs))
    | none => n.double?
  | _ => none

def Tree.text? : Tree → Option String
  | .text content => content
  | _ => none

/-- Members whose keys all have content. -/
def keyed? (members : List (Option String × Tree)) : Option (List (String × Tree)) :=
  members.mapM fun (key, v) => key.map (·, v)

def valuesOf (name : String) (members : List (String × Tree)) : List Tree :=
  (members.filter (·.1 == name)).map (·.2)

/-- The value given for a name, if any; a name given twice is refused. -/
def slot? (name : String) (members : List (String × Tree)) : Option (Option Tree) :=
  match valuesOf name members with
  | [] => some none
  | [v] => some (some v)
  | _ => none

/-- The values given for the names of a record: by key in an object, by place in an array. -/
def slots? (names : List String) : Tree → Option (List (Option Tree))
  | .object members => (keyed? members).bind fun ms => names.mapM fun name => slot? name ms
  | .array items =>
    if items.length ≤ names.length then
      some (items.map some ++ List.replicate (names.length - items.length) none)
    else none
  | _ => none

/-- The tag of a variant and a tree that holds the members of its case. The tag is given exactly
once, anywhere in an object or first in an array. -/
def untag? (tag : String) : Tree → Option (String × Tree)
  | .object members => do
    let ms ← keyed? members
    let found ← slot? tag ms
    let name ← found.bind Tree.text?
    pure (name, .object (members.filter (·.1 != some tag)))
  | .array (first :: rest) => first.text?.map (·, .array rest)
  | _ => none

end Json

mutual

/-- Reads the JSON form. `room` is the number of containers that may still be nested where values
are kept whole before they are read. -/
def Schema.ofJson? {α : Type} (room : Nat) : Schema α → Tree → Option α
  | .byte, t => (t.natural? UInt8.size).map UInt8.ofNat
  | .word16, t => (t.natural? UInt16.size).map UInt16.ofNat
  | .word32, t => (t.natural? UInt32.size).map UInt32.ofNat
  | .word64, t => (t.natural? UInt64.size).map UInt64.ofNat
  | .integer64, t => t.int64?
  | .flag, t =>
    match t with
    | .flag b => some b
    | _ => none
  | .double, t => t.double?
  | .text, t => t.text?
  | .bytes32, t => t.text?.bind fun s => (Bytes32.ofText s).toOption
  | .list item, t =>
    match t with
    | .array items => items.mapM (item.ofJson? (room - 1))
    | _ => none
  | .record members view, t =>
    (Json.slots? members.names t).bind fun slots =>
      (members.ofJson? (room - 1) slots).map view.make
  | .variant tag cases view, t => do
    let _ ← t.toValue? room
    let (name, members) ← Json.untag? tag t
    (cases.ofJson? (room - 1) name members).map view.make

/-- Reads the values given for the members of a record. -/
def Members.ofJson? {β : Type} (room : Nat) : Members β → List (Option Tree) → Option β
  | .nil, _ => some ()
  | .cons _ schema missing rest, slots => do
    let v ←
      match slots with
      | some t :: _ => schema.ofJson? room t
      | _ => missing
    let vs ← rest.ofJson? room slots.tail
    pure (v, vs)

/-- Reads the members of the case of a given name. -/
def Cases.ofJson? {β : Type} (room : Nat) (name : String) : Cases β → Tree → Option β
  | .nil, _ => none
  | .cons this members rest, t =>
    if name = this then
      (Json.slots? members.names t).bind fun slots =>
        (members.ofJson? room slots).map Sum.inl
    else (rest.ofJson? room name t).map Sum.inr

end

/-- Reads a value from the bytes of a JSON text. -/
def Schema.ofJsonBytes? {α : Type} (schema : Schema α) (bytes : List UInt8) : Option α :=
  (Tree.parse bytes).bind (schema.ofJson? Json.nestingLimit)

def Schema.toJsonBytes {α : Type} (schema : Schema α) (v : α) : List UInt8 :=
  (schema.toJson v).toBytes

end RemoteNode
