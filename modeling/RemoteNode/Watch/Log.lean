import RemoteNode.Calendar
import RemoteNode.Json.Value
import RemoteNode.Observer.Notice
import RemoteNode.Settings

/-!
The log of the watcher: lines with a level, a message and named values. An observer writes what it
is told; few peers and a lost connection are warnings.
-/

namespace RemoteNode.Watch

open Observer (Notice)

/-- How much a line matters. -/
inductive Level where
  | info
  | warn
  | error
  deriving DecidableEq, Repr

def Level.name : Level → String
  | info => "INFO"
  | warn => "WARN"
  | error => "ERROR"

/-- A line of the log. -/
structure Line where
  level : Level
  message : String
  fields : List (String × Json.Value)

namespace Line

def info (message : String) (fields : List (String × Json.Value)) : Line := ⟨.info, message, fields⟩

def warn (message : String) (fields : List (String × Json.Value)) : Line := ⟨.warn, message, fields⟩

def number (n : Nat) : Json.Value := .integer n

/-- Less than this many peers are few. -/
def enoughPeers : UInt64 := 3

/-- The lines for a notice. -/
def ofNotice : Notice → List Line
  | .peers n =>
    let fields := [("peers", number n.toNat)]
    [if n < enoughPeers then warn "low peer count on remote node" fields
      else info "peer count updated" fields]
  | .localHeight h => [info "node chain advanced" [("height", number h.toNat)]]
  | .knownHeight h => [info "network height updated" [("height", number h.toNat)]]
  | .header h =>
    [info "new top block"
      [("height", number h.index.toNat), ("hash", .text h.hash.text),
        ("time", .text (Calendar.text h.timestamp.toNat)),
        ("difficulty", number h.difficulty.toNat)]]
  | .pool added removed =>
    added.map (fun id => info "transaction entered the pool" [("tx", .text id.text)]) ++
      [info "pool changed" [("added", number added.length), ("removed", number removed.length)]]
  | .connected true => [info "connected to node" []]
  | .connected false => [warn "lost connection to node" []]

def starting (s : Settings) : Line :=
  info "starting node watcher"
    [("endpoint", .text s.endpoint.text), ("timeout_ms", number s.store.timeoutMs.toNat),
      ("pull_interval_ms", number s.store.pullIntervalMs.toNat)]

/-- The line of a watcher that cannot go on. -/
def failed (reason : String) : Line :=
  ⟨.error, "node watcher failed", [("error", .text reason)]⟩

/-- The line of a watcher that is connected, with the top header and the height known. -/
def initialized (h : Chain.BlockHeader) (known : UInt32) : Line :=
  info "proxy initialized"
    [("height", number h.index.toNat), ("hash", .text h.hash.text),
      ("time", .text (Calendar.text h.timestamp.toNat)), ("known_height", number known.toNat)]

/-- The message stands first among the named values. -/
def members (l : Line) : List (String × Json.Value) := ("message", .text l.message) :: l.fields

def toJson (l : Line) : Json.Value :=
  .object [("level", .text l.level.name), ("fields", .object l.members)]

/-- A line as text: the level, the message and the named values. -/
def text (l : Line) : String :=
  l.fields.foldl (fun s (key, v) => s ++ " " ++ key ++ "=" ++ v.toText)
    (l.level.name ++ " " ++ l.message)

end Line

end RemoteNode.Watch
