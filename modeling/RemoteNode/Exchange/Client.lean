import RemoteNode.Exchange.RoundTrip
import RemoteNode.Url.Basic

/-!
A client for one node: the URL that paths are resolved against and the longest a round trip may
take. One call posts one request, to the path of its command whatever path, query or fragment the
URL has.
-/

namespace RemoteNode.Exchange

/-- A client for one node. -/
structure Client where
  base : Url
  isBase : base.isBase = true
  timeout : Timeout

namespace Client

/-- Builds a client, where a transport is available. The URL is judged first. -/
def build (transport : Bool) (base : Url) (timeout : Timeout) : Except Error Client :=
  if h : base.isBase = true then
    if transport then .ok ⟨base, h, timeout⟩
    else .error (.connection "no transport is available")
  else .error (.invalidUrl base.text)

/-- The client with another timeout, which counts from the next call on. -/
def withTimeout (client : Client) (timeout : Timeout) : Client := { client with timeout := timeout }

/-- Where the requests of a command go. -/
def target (client : Client) (c : Command) : Url := client.base.atPath (c.path.toList.drop 1)

end Client

/-- One call: what was posted where, what the caller is told and what is reported. -/
structure Call (c : Command) where
  target : Url
  posted : Posted
  result : Except Error c.Content
  report : Report

/-- Calls a command, where `reply` is what becomes of the request. -/
def Client.call (client : Client) (c : Command) (r : c.Request) (reply : Arrival Response) :
    Call c :=
  let result := outcome c client.timeout reply
  ⟨client.target c, post c r, result, Exchange.report client.timeout result⟩

end RemoteNode.Exchange
