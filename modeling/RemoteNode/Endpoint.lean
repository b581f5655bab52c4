import RemoteNode.Schema.Basic
import RemoteNode.Text.Decimal
import RemoteNode.Text.Quoted
import RemoteNode.Url.Basic

/-!
The host and port of a node. In text the port stands after the last colon. Requests are posted to
the URL that has the host and port in their written form as its authority.
-/

namespace RemoteNode

/-- The host and port of a node. -/
structure Endpoint where
  host : String
  port : UInt16
  deriving DecidableEq

namespace Endpoint

/-- The node that is asked where none is chosen. -/
def standard : Endpoint := ⟨"127.0.0.1", 18333⟩

instance : Inhabited Endpoint := ⟨standard⟩

def characters (e : Endpoint) : List Char :=
  e.host.toList ++ ':' :: Text.Decimal.digits e.port.toNat

def text (e : Endpoint) : String := String.ofList e.characters

def debug (e : Endpoint) : String :=
  "NodeEndpoint \x7b host: " ++ Text.Quoted.text e.host ++ ", port: " ++ toString e.port.toNat ++
    " \x7d"

/-- Reads a port: digits after an optional plus sign. -/
def port? (cs : List Char) : Option UInt16 :=
  let digits := match cs with
    | '+' :: rest => rest
    | cs => cs
  (Text.Decimal.natural? digits).bind fun n => if n < 65536 then some (UInt16.ofNat n) else none

def ofText? (s : String) : Option Endpoint :=
  match Text.cutLast ':' s.toList with
  | none => none
  | some (host, port) =>
    if host.isEmpty then none else (port? port).map (⟨String.ofList host, ·⟩)

/-- The URL that requests are resolved against, if there is one. -/
def url? (e : Endpoint) (naming : Url.Host.Naming := .ascii) : Option Url :=
  Url.parse? ("http://".toList ++ e.characters ++ ['/']) naming

/-- Both members have to be present. -/
def schema : Schema Endpoint :=
  .record (.needed "host" .text <| .needed "port" .word16 .nil)
    ⟨fun (a, b, ()) => ⟨a, b⟩, fun v => (v.host, v.port, ()), fun _ => rfl, fun _ => rfl⟩

end Endpoint

end RemoteNode
