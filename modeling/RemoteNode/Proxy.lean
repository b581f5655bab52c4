import RemoteNode.Session.World
import RemoteNode.Settings

/-!
Access to one remote node. Settings are checked once, when a proxy is built from them; the timeout
may be changed later. What happens to a proxy is a world of its own, which knows nothing at first.
-/

namespace RemoteNode

/-- Access to one remote node. -/
structure Proxy where
  endpoint : Endpoint
  /-- What the paths of requests are resolved against. -/
  base : Url
  timeout : Exchange.Timeout
  pullInterval : Duration

namespace Proxy

/-- Builds a proxy from settings that are good and name a node that has a URL. -/
def ofSettings (s : Settings) (naming : Url.Host.Naming := .ascii) : Except Failure Proxy :=
  match s.check, s.url naming with
  | .error e, _ => .error (.invalidArgument e.message)
  | .ok _, .error e => .error (.invalidArgument e.message)
  | .ok s, .ok base => .ok ⟨s.endpoint, base, .ofDuration s.timeout, s.pullInterval⟩

def withTimeout (p : Proxy) (d : Duration) : Proxy := { p with timeout := .ofDuration d }

/-- What there is before anything happens, where `n` callers use the proxy. -/
def world (p : Proxy) (n : Nat) : Session.World := .initial n p.timeout

def debug (p : Proxy) (state : Session.State) : String :=
  "NodeRpcProxy \x7b endpoint: " ++ p.endpoint.debug ++ ", state: " ++ state.name ++
    ", rpc_timeout: " ++ p.timeout.duration.text ++ " \x7d"

end Proxy

end RemoteNode
