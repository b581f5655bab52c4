import RemoteNode.Exchange.Error
import RemoteNode.Text.Quoted

/-!
Why an operation on the remote node failed, as its caller is told. Errors of the exchange are
grouped by what a caller can do about them.
-/

namespace RemoteNode

/-- Why an operation failed. -/
inductive Failure where
  | notInitialized
  | alreadyInitialized
  | connectionFailed (message : String)
  | timeout
  | malformedResponse (message : String)
  | rejected (code : Option Int64) (message : String)
  | interrupted
  | invalidArgument (message : String)
  | internal (message : String)
  deriving DecidableEq

namespace Failure

def message : Failure → String
  | notInitialized => "Node proxy is not initialized"
  | alreadyInitialized => "Node proxy is already initialized"
  | connectionFailed m => "Connection failed: " ++ m
  | timeout => "Request timed out"
  | malformedResponse m => "Malformed response: " ++ m
  | rejected _ m => "Request rejected by node: " ++ m
  | interrupted => "Operation interrupted by shutdown"
  | invalidArgument m => "Invalid argument: " ++ m
  | internal m => "Internal error: " ++ m

def code : Failure → Option Int64
  | rejected code _ => code
  | _ => none

def isTransient : Failure → Bool
  | connectionFailed _ | timeout => true
  | _ => false

/-- A name around a quoted text. -/
def labelled (name m : String) : String := name ++ "(" ++ Text.Quoted.text m ++ ")"

def debug : Failure → String
  | notInitialized => "NotInitialized"
  | alreadyInitialized => "AlreadyInitialized"
  | connectionFailed m => labelled "ConnectionFailed" m
  | timeout => "Timeout"
  | malformedResponse m => labelled "MalformedResponse" m
  | rejected code m =>
    let shown := match code with
      | some n => "Some(" ++ toString n.toInt ++ ")"
      | none => "None"
    "Rejected \x7b code: " ++ shown ++ ", message: " ++ Text.Quoted.text m ++ " \x7d"
  | interrupted => "Interrupted"
  | invalidArgument m => labelled "InvalidArgument" m
  | internal m => labelled "Internal" m

/-- The failure that an error of the exchange means to a caller. -/
def ofExchange : Exchange.Error → Failure
  | .serialization m => .malformedResponse m
  | .connection m | .invalidUrl m => .connectionFailed m
  | .timeout _ => .timeout
  | .httpStatus n => .rejected (some (Int64.ofNat n.toNat)) (Exchange.Error.httpStatus n).message
  | .nodeStatus s => .rejected none s
  | .application code m => .rejected (some code) m

end Failure

end RemoteNode
