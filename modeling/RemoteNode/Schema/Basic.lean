import RemoteNode.Bytes32
import RemoteNode.Double

/-!
Descriptions of data that travels. A schema of `α` says how a value of `α` is laid out; the JSON
form and the packed form are both read off it, so a record is described once.

A record's schema lists its members in order, each with a name and perhaps a value that stands in
for it where it is missing. A variant's schema lists its cases, told apart by the text of one
member.
-/

namespace RemoteNode

/-- Two views of the same values: whole, and by their parts. -/
structure View (α β : Type) where
  make : β → α
  parts : α → β
  make_parts : ∀ a, make (parts a) = a
  parts_make : ∀ b, parts (make b) = b

mutual

/-- How a value of a type is laid out. -/
inductive Schema : Type → Type 1
  | byte : Schema UInt8
  | word16 : Schema UInt16
  | word32 : Schema UInt32
  | word64 : Schema UInt64
  | integer64 : Schema Int64
  | flag : Schema Bool
  | double : Schema Double
  | text : Schema String
  | bytes32 : Schema Bytes32
  | list {α : Type} (item : Schema α) : Schema (List α)
  | record {α β : Type} (members : Members β) (view : View α β) : Schema α
  | variant {α β : Type} (tag : String) (cases : Cases β) (view : View α β) : Schema α

/-- The members of a record, in order. -/
inductive Members : Type → Type 1
  | nil : Members Unit
  | cons {α β : Type} (name : String) (schema : Schema α) (missing : Option α) (rest : Members β) :
    Members (α × β)

/-- The cases of a variant, in order. -/
inductive Cases : Type → Type 1
  | nil : Cases Empty
  | cons {α β : Type} (name : String) (members : Members α) (rest : Cases β) : Cases (α ⊕ β)

end

namespace Members

/-- A member that has to be present. -/
abbrev needed {α β : Type} (name : String) (schema : Schema α) (rest : Members β) :
    Members (α × β) := .cons name schema none rest

/-- A member whose type's default stands in where it is missing. -/
abbrev defaulted {α β : Type} [Inhabited α] (name : String) (schema : Schema α)
    (rest : Members β) : Members (α × β) := .cons name schema (some default) rest

def names {β : Type} : Members β → List String
  | nil => []
  | cons name _ _ rest => name :: names rest

end Members

namespace Schema

abbrev bytes : Schema (List UInt8) := .list .byte

end Schema

end RemoteNode
