import RemoteNode.Exchange.Error
import RemoteNode.Schema.Json

/-!
The envelope around requests that share one path: a request names its method, and a reply holds a
result or a refusal. If both can be read, the refusal counts.
-/

namespace RemoteNode.Exchange.Envelope

open Json (Tree Value)

/-- A request inside its envelope. -/
structure Request (α : Type) where
  id : UInt64
  version : String
  method : String
  params : α

/-- A refusal. -/
structure Refusal where
  code : Int64
  message : String
  deriving DecidableEq

/-- A reply, all of whose members may be missing or null. -/
structure Reply (α : Type) where
  id : Option Value
  version : Option String
  result : Option α
  error : Option Refusal

/-- Both members have to be present. -/
def Refusal.schema : Schema Refusal :=
  .record (.needed "code" .integer64 <| .needed "message" .text .nil)
    ⟨fun (a, b, ()) => ⟨a, b⟩, fun v => (v.code, v.message, ()), fun _ => rfl, fun _ => rfl⟩

/-- The version that requests announce. -/
def currentVersion : String := "2.0"

/-- The identifier that requests bear. -/
def requestId : UInt64 := 1

namespace Request

def new {α : Type} (id : UInt64) (method : String) (params : α) : Request α :=
  ⟨id, currentVersion, method, params⟩

def toJson (r : Request Value) : Value :=
  .object [("id", .natural r.id.toNat), ("jsonrpc", .text r.version), ("method", .text r.method),
    ("params", r.params)]

/-- Reads the JSON form; all members have to be present. -/
def ofJson? {α : Type} (params : Nat → Tree → Option α) (room : Nat) (t : Tree) :
    Option (Request α) := do
  match ← Json.slots? ["id", "jsonrpc", "method", "params"] t with
  | [some id, some version, some method, some content] =>
    let id ← Schema.word64.ofJson? (room - 1) id
    let version ← version.text?
    let method ← method.text?
    let content ← params (room - 1) content
    pure ⟨id, version, method, content⟩
  | _ => none

/-- Reads a request, its parameters kept whole, from the bytes of its JSON text. -/
def ofJsonBytes? (bytes : List UInt8) : Option (Request Value) :=
  (Tree.parse bytes).bind (ofJson? Tree.toValue? Json.nestingLimit)

end Request

/-- Reads a member that may be missing or null. -/
def optional? {α : Type} (read : Tree → Option α) : Option Tree → Option (Option α)
  | none | some .null => some none
  | some t => (read t).map some

namespace Reply

def ofJson? {α : Type} (result : Nat → Tree → Option α) (room : Nat) (t : Tree) :
    Option (Reply α) := do
  match ← Json.slots? ["id", "jsonrpc", "result", "error"] t with
  | [id, version, value, error] =>
    let id ← optional? (Tree.toValue? (room - 1)) id
    let version ← optional? Tree.text? version
    let value ← optional? (result (room - 1)) value
    let error ← optional? (Refusal.schema.ofJson? (room - 1)) error
    pure ⟨id, version, value, error⟩
  | _ => none

def ofJsonBytes? {α : Type} (result : Nat → Tree → Option α) (bytes : List UInt8) :
    Option (Reply α) :=
  (Tree.parse bytes).bind (ofJson? result Json.nestingLimit)

def content {α : Type} (r : Reply α) : Except Error α :=
  match r.error, r.result with
  | some refusal, _ => .error (.application refusal.code refusal.message)
  | none, some v => .ok v
  | none, none => .error (.serialization "No result returned")

end Reply

/-- The result in the bytes of a reply. -/
def result {α : Type} (read : Nat → Tree → Option α) (bytes : List UInt8) : Except Error α :=
  match Reply.ofJsonBytes? read bytes with
  | some reply => reply.content
  | none => .error (.serialization "Invalid response: the reply does not have the expected form")

end RemoteNode.Exchange.Envelope
