import RemoteNode.Duration
import RemoteNode.Schema.Basic

/-!
Why a request to the node brought no answer, with the texts and codes that are reported. A timeout
and a failed connection are transient: the same request may succeed later.
-/

namespace RemoteNode.Exchange

/-- Why a request brought no answer. -/
inductive Error where
  /-- The request could not be written or the answer could not be read. -/
  | serialization (message : String)
  /-- The node was not reached, or the connection broke. -/
  | connection (message : String)
  /-- The answer did not arrive within this time. -/
  | timeout (limit : Duration)
  /-- The answer came with an HTTP status that does not mean success. -/
  | httpStatus (status : UInt16)
  /-- The node served the request and reported a status of its own. -/
  | nodeStatus (status : String)
  /-- The node refused the request inside its envelope. -/
  | application (code : Int64) (message : String)
  /-- No request can be posted to the URL. -/
  | invalidUrl (message : String)
  deriving DecidableEq

namespace Error

def message : Error → String
  | serialization m => "Serialization error: " ++ m
  | connection m => "Connection error: " ++ m
  | timeout limit => "Request timed out after " ++ limit.text
  | httpStatus n => "HTTP status " ++ toString n.toNat
  | nodeStatus s => "Node status: " ++ s
  | application code m => "RPC error " ++ toString code.toInt ++ ": " ++ m
  | invalidUrl m => "Invalid URL: " ++ m

def code : Error → Int64
  | serialization _ => -32700
  | application code _ => code
  | invalidUrl _ => -32600
  | _ => -32603

/-- The same request may succeed later. -/
def isTransient : Error → Bool
  | connection _ | timeout _ => true
  | _ => false

end Error

end RemoteNode.Exchange
