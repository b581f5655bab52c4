import RemoteNode.Exchange.Body
import RemoteNode.Exchange.Timeout

/-!
One round trip: what is posted, what may come back, and what the caller is told. The head of an
answer decides before its body is looked at.
-/

namespace RemoteNode.Exchange

/-- How a transport gives up. -/
inductive Trouble where
  /-- It calls the failure a timeout. -/
  | timeout
  /-- It could not undo the coding of a body. -/
  | decoding (message : String)
  | other (message : String)
  deriving DecidableEq

/-- What becomes of something awaited within a time limit. -/
inductive Arrival (α : Type) where
  | inTime (a : α)
  | failed (t : Trouble)
  /-- Nothing before the time is up. -/
  | late
  deriving DecidableEq

/-- The head of an answer and what becomes of its body. -/
structure Response where
  status : UInt16
  body : Arrival (List UInt8)
  deriving DecidableEq

/-- A status from 200 to 299. -/
def Response.isSuccess (r : Response) : Bool := 200 ≤ r.status && r.status < 300

/-- What is posted to the node. -/
structure Posted where
  path : String
  contentType : String
  body : List UInt8
  deriving DecidableEq

/-- The request of a command as it is posted. -/
def post (c : Command) (r : c.Request) : Posted := ⟨c.path, c.format.contentType, c.encode r⟩

/-- What is awaited, or the error that stands for its failure. -/
def Arrival.result {α : Type} (limit : Timeout) : Arrival α → Except Error α
  | inTime a => .ok a
  | failed .timeout | late => .error (.timeout limit.duration)
  | failed (.decoding m) => .error (.serialization m)
  | failed (.other m) => .error (.connection m)

/-- What the caller is told when a reply has come or failed to come. -/
def outcome (c : Command) (limit : Timeout) (reply : Arrival Response) : Except Error c.Content :=
  match reply.result limit with
  | .error e => .error e
  | .ok head =>
    if head.isSuccess then
      match head.body.result limit with
      | .ok body => c.accept body
      | .error e => .error e
    else .error (.httpStatus head.status)

/-- What is reported of a round trip when it has ended. -/
structure Report where
  command : Command
  limit : Timeout
  /-- The code of the error, if it failed. -/
  errorCode : Option Int64
  deriving DecidableEq

def report {c : Command} (limit : Timeout) (result : Except Error c.Content) : Report where
  command := c
  limit := limit
  errorCode := match result with
    | .ok _ => none
    | .error e => some e.code

def Report.success (r : Report) : Bool := r.errorCode.isNone

end RemoteNode.Exchange
