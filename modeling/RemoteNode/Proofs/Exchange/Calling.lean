import RemoteNode.Exchange.Client
import RemoteNode.Failure

/-! What becomes of a call. One request goes out, to the path of its command at the authority of the
base; what the caller is told is decided by the first thing that goes wrong on the way from the head
of the answer to the status inside its body. -/

namespace RemoteNode

open Exchange

namespace Command
variable {c : Command} {body : List UInt8} {v : Answer c.Content} {code : Int64} {m : String}
  {e : Error}

/-- The body holds an answer in the format of the command. -/
def Decodes (c : Command) (body : List UInt8) (v : Answer c.Content) : Prop :=
  match c.format with
  | .packed => c.answer.ofPacked? body = some v
  | .json => c.answer.ofJsonBytes? body = some v
  | .rpc => ∃ reply, Envelope.Reply.ofJsonBytes? c.answer.ofJson? body = some reply ∧
      reply.error = none ∧ reply.result = some v

/-- The body holds a refusal inside an envelope. -/
def Refuses (c : Command) (body : List UInt8) (code : Int64) (m : String) : Prop :=
  c.format = .rpc ∧ ∃ reply, Envelope.Reply.ofJsonBytes? c.answer.ofJson? body = some reply ∧
    reply.error = some ⟨code, m⟩

/-- The body holds neither an answer nor a refusal. -/
def IsMalformed (c : Command) (body : List UInt8) : Prop :=
  (∀ v, ¬c.Decodes body v) ∧ ∀ code m, ¬c.Refuses body code m

end Command

namespace Exchange
variable {α : Type} {c : Command} {limit : Timeout} {reply : Arrival Response} {head : Response}
  {body : List UInt8} {t : Trouble}

/-- Why nothing has come, if nothing has. When the time is up, that is a timeout. -/
def Arrival.trouble? : Arrival α → Option Trouble
  | inTime _ => none
  | failed t => some t
  | late => some .timeout

/-- The error that trouble is reported as. -/
def Trouble.error (limit : Timeout) : Trouble → Error
  | timeout => .timeout limit.duration
  | decoding m => .serialization m
  | other m => .connection m

/-- The status is one of 200 to 299. -/
def Response.IsGood (head : Response) : Prop := 200 ≤ head.status.toNat ∧ head.status.toNat ≤ 299

/-- The head of an answer fails to arrive, or the body after a good head. -/
def Arrival.LostTo (reply : Arrival Response) (t : Trouble) : Prop :=
  reply.trouble? = some t ∨
    ∃ head, reply = .inTime head ∧ head.IsGood ∧ head.body.trouble? = some t

/-- A complete answer with a good status arrives in time. -/
def Arrival.Brings (reply : Arrival Response) (body : List UInt8) : Prop :=
  ∃ head, reply = .inTime head ∧ head.IsGood ∧ head.body = .inTime body

/-- A reply fails to arrive, says with its status that the request failed, or brings a body. -/
theorem Arrival.cases (reply : Arrival Response) : (∃ t, reply.LostTo t) ∨
    (∃ head, reply = .inTime head ∧ ¬head.IsGood) ∨ ∃ body, reply.Brings body := by
  cases reply with
  | failed t => exact .inl ⟨t, .inl rfl⟩
  | late => exact .inl ⟨.timeout, .inl rfl⟩
  | inTime head =>
    by_cases good : head.IsGood
    · cases hb : head.body with
      | inTime body => exact .inr (.inr ⟨body, head, rfl, good, hb⟩)
      | failed t => exact .inl ⟨t, .inr ⟨head, rfl, good, by rw [hb]; rfl⟩⟩
      | late => exact .inl ⟨.timeout, .inr ⟨head, rfl, good, by rw [hb]; rfl⟩⟩
    · exact .inr (.inl ⟨head, rfl, good⟩)

/-- What the caller is told, and why. -/
inductive Told (c : Command) (limit : Timeout) : Arrival Response → Except Error c.Content → Prop
  | late {reply : Arrival Response} (gone : reply.LostTo .timeout) :
    Told c limit reply (.error (.timeout limit.duration))
  | garbled {reply : Arrival Response} (m : String) (gone : reply.LostTo (.decoding m)) :
    Told c limit reply (.error (.serialization m))
  | broken {reply : Arrival Response} (m : String) (gone : reply.LostTo (.other m)) :
    Told c limit reply (.error (.connection m))
  | status (head : Response) (bad : ¬head.IsGood) :
    Told c limit (.inTime head) (.error (.httpStatus head.status))
  | served {reply : Arrival Response} (body : List UInt8) (v : c.Content)
    (arrived : reply.Brings body) (decodes : c.Decodes body ⟨Command.served, v⟩) :
    Told c limit reply (.ok v)
  | nodeStatus {reply : Arrival Response} (body : List UInt8) (s : String) (v : c.Content)
    (arrived : reply.Brings body) (other : s ≠ Command.served) (decodes : c.Decodes body ⟨s, v⟩) :
    Told c limit reply (.error (.nodeStatus s))
  | application {reply : Arrival Response} (body : List UInt8) (code : Int64) (m : String)
    (arrived : reply.Brings body) (refuses : c.Refuses body code m) :
    Told c limit reply (.error (.application code m))
  | malformed {reply : Arrival Response} (body : List UInt8) (m : String)
    (arrived : reply.Brings body) (malformed : c.IsMalformed body) :
    Told c limit reply (.error (.serialization m))

/-- What a call does, and when its caller is told what. -/
structure Call.Exact {c : Command} (call : Call c) (client : Client) (r : c.Request)
    (reply : Arrival Response) : Prop where
  /-- One request is posted: the encoded request, in the format of the command. -/
  posted : call.posted = ⟨c.path, c.format.contentType, c.encode r⟩
  /-- It goes to the authority of the base; the path, query and fragment of the base are left
  out. -/
  authority : call.target =
    { client.base with path := call.target.path, query := none, fragment := none }
  /-- It goes to the path of the command. -/
  path : call.target.path.characters = c.path.toList
  served : ∀ v, call.result = .ok v ↔ ∃ body, reply.Brings body ∧ c.Decodes body ⟨"OK", v⟩
  httpStatus : ∀ n, call.result = .error (.httpStatus n) ↔
    ∃ head, reply = .inTime head ∧ head.status = n ∧ ¬head.IsGood
  timeout : ∀ d, call.result = .error (.timeout d) ↔
    d = client.timeout.duration ∧ reply.LostTo .timeout
  connection : ∀ m, call.result = .error (.connection m) ↔ reply.LostTo (.other m)
  serialization : (∃ m, call.result = .error (.serialization m)) ↔
    (∃ m, reply.LostTo (.decoding m)) ∨ ∃ body, reply.Brings body ∧ c.IsMalformed body
  application : ∀ code m, call.result = .error (.application code m) ↔
    ∃ body, reply.Brings body ∧ c.Refuses body code m
  nodeStatus : ∀ s, call.result = .error (.nodeStatus s) ↔
    s ≠ "OK" ∧ ∃ body v, reply.Brings body ∧ c.Decodes body ⟨s, v⟩
  /-- The builder has accepted the base, so that no call finds fault with it. -/
  validUrl : ∀ m, call.result ≠ .error (.invalidUrl m)
  /-- What fails to arrive may succeed later, unless it came and could not be undone. -/
  transient : ∀ e, call.result = .error e →
    (e.isTransient = true ↔ reply.LostTo .timeout ∨ ∃ m, reply.LostTo (.other m))
  /-- Those who are told of the failure only may try again just then. -/
  failure : ∀ e, call.result = .error e → (Failure.ofExchange e).isTransient = e.isTransient

end Exchange

end RemoteNode
