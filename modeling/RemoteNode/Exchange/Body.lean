import RemoteNode.Command.Basic
import RemoteNode.Exchange.Envelope
import RemoteNode.Schema.Packed

/-!
The bodies of requests and answers, in the format of their command.
-/

namespace RemoteNode.Command

open Exchange

def encode (c : Command) (r : c.Request) : List UInt8 :=
  match c.format with
  | .packed => c.request.pack r
  | .json => c.request.toJsonBytes r
  | .rpc =>
    (Envelope.Request.new Envelope.requestId c.endpoint (c.request.toJson r)).toJson.toBytes

def decode (c : Command) (body : List UInt8) : Except Error (Answer c.Content) :=
  match c.format with
  | .packed =>
    match c.answer.ofPacked? body with
    | some answer => .ok answer
    | none => .error (.serialization "the answer is not a packed value of the expected layout")
  | .json =>
    match c.answer.ofJsonBytes? body with
    | some answer => .ok answer
    | none => .error (.serialization "the answer is not a JSON text of the expected form")
  | .rpc => Envelope.result c.answer.ofJson? body

/-- The content of an answer whose status is good. -/
def accept (c : Command) (body : List UInt8) : Except Error c.Content :=
  match c.decode body with
  | .ok answer =>
    if answer.status = served then .ok answer.content else .error (.nodeStatus answer.status)
  | .error e => .error e

end RemoteNode.Command
