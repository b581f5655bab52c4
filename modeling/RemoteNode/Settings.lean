import RemoteNode.Duration
import RemoteNode.Endpoint
import RemoteNode.Schema.Json
import RemoteNode.Text.Blank
import RemoteNode.Toml.Document

/-!
Which node is asked, how long an answer may take and how often the node is looked at; with the
checks that settings have to pass and the forms in which they are stored. Stored durations are
whole milliseconds.
-/

namespace RemoteNode

/-- How a remote node is reached. -/
structure Settings where
  endpoint : Endpoint
  /-- The longest a round trip may take. -/
  timeout : Duration
  /-- The time between two looks at the node. -/
  pullInterval : Duration
  deriving DecidableEq

/-- What is wrong with settings. -/
inductive Settings.Fault where
  | blankHost
  | zeroPort
  | zeroTimeout
  | zeroInterval
  deriving DecidableEq, Repr

/-- Why there are no settings. -/
inductive Settings.Error where
  | endpoint (text : String)
  | invalid (fault : Settings.Fault)
  /-- The file cannot be read, or is no text. -/
  | unreadable (explanation : String)
  /-- The text does not have the expected form. -/
  | malformed (explanation : String)
  deriving DecidableEq

/-- The node that a text names. -/
def Endpoint.ofText (s : String) : Except Settings.Error Endpoint :=
  match ofText? s with
  | some e => .ok e
  | none => .error (.endpoint s)

namespace Settings

def Fault.description : Fault → String
  | blankHost => "endpoint host is empty"
  | zeroPort => "endpoint port is zero"
  | zeroTimeout => "rpc timeout must be positive"
  | zeroInterval => "pull interval must be positive"

def Error.message : Error → String
  | endpoint s => "Invalid endpoint '" ++ s ++ "': expected host:port"
  | invalid fault => "Invalid configuration: " ++ fault.description
  | unreadable e => "Failed to read configuration file: " ++ e
  | malformed e => "Failed to parse configuration file: " ++ e

/-- Ten seconds for an answer, a look every five. -/
def ofEndpoint (e : Endpoint) : Settings := ⟨e, .ofMilliseconds 10000, .ofMilliseconds 5000⟩

def standard : Settings := ofEndpoint .standard

instance : Inhabited Settings := ⟨standard⟩

def fault? (s : Settings) : Option Fault :=
  if Text.isBlankText s.endpoint.host then some .blankHost
  else if s.endpoint.port = 0 then some .zeroPort
  else if s.timeout.isZero then some .zeroTimeout
  else if s.pullInterval.isZero then some .zeroInterval
  else none

def check (s : Settings) : Except Error Settings :=
  match s.fault? with
  | some fault => .error (.invalid fault)
  | none => .ok s

def url (s : Settings) (naming : Url.Host.Naming := .ascii) : Except Error Url :=
  match s.endpoint.url? naming with
  | some u => .ok u
  | none => .error (.endpoint s.endpoint.text)

/-- Settings as they are stored. -/
structure Stored where
  endpoint : Endpoint
  timeoutMs : UInt64
  pullIntervalMs : UInt64
  deriving DecidableEq

/-- The stored form; of longer durations the low 64 bits of the milliseconds are kept. -/
def store (s : Settings) : Stored :=
  ⟨s.endpoint, UInt64.ofNat s.timeout.milliseconds, UInt64.ofNat s.pullInterval.milliseconds⟩

def Stored.settings (s : Stored) : Settings :=
  ⟨s.endpoint, .ofMilliseconds s.timeoutMs.toNat, .ofMilliseconds s.pullIntervalMs.toNat⟩

/-- Every member may be missing. -/
def Stored.schema : Schema Stored :=
  let s := store standard
  .record
    (.cons "endpoint" Endpoint.schema (some s.endpoint) <|
     .cons "rpc_timeout_ms" .word64 (some s.timeoutMs) <|
     .cons "pull_interval_ms" .word64 (some s.pullIntervalMs) .nil)
    ⟨fun (a, b, c, ()) => ⟨a, b, c⟩, fun v => (v.endpoint, v.timeoutMs, v.pullIntervalMs, ()),
     fun _ => rfl, fun _ => rfl⟩

def toJson (s : Settings) : Json.Value := Stored.schema.toJson s.store

/-- Reads the JSON form; the settings are not checked. -/
def ofJsonBytes? (bytes : List UInt8) : Option Settings :=
  (Stored.schema.ofJsonBytes? bytes).map Stored.settings

/-! ### The form of a file -/

/-- An integer in `0 ≤ n < bound`. -/
def natural? (bound : Nat) : Toml.Value → Option Nat
  | .integer (.ofNat n) => if n < bound then some n else none
  | _ => none

def endpointOf? (host port : Toml.Value) : Option Endpoint :=
  match host with
  | .text h => (natural? UInt16.size port).map fun p => ⟨h, UInt16.ofNat p⟩
  | _ => none

/-- An endpoint as a table, or as an array that begins with host and port. -/
def endpoint? : Toml.Value → Option Endpoint
  | .table ms =>
    match ms.lookup "host", ms.lookup "port" with
    | some host, some port => endpointOf? host port
    | _, _ => none
  | .array (host :: port :: _) => endpointOf? host port
  | _ => none

def member? {α : Type} (key : String) (read : Toml.Value → Option α) (standard : α)
    (ms : List (String × Toml.Value)) : Option α :=
  match ms.lookup key with
  | some v => read v
  | none => some standard

/-- Settings in the members of a document. -/
def ofMembers? (ms : List (String × Toml.Value)) : Option Settings := do
  let e ← member? "endpoint" endpoint? standard.endpoint ms
  let t ← member? "rpc_timeout_ms" milliseconds? standard.timeout ms
  let p ← member? "pull_interval_ms" milliseconds? standard.pullInterval ms
  pure ⟨e, t, p⟩
where
  /-- A number of milliseconds. -/
  milliseconds? (v : Toml.Value) : Option Duration := (natural? UInt64.size v).map .ofMilliseconds

/-- The checked settings in the bytes of a file, if there is one. -/
def ofFile (bytes : Option (List UInt8)) : Except Error Settings :=
  match bytes with
  | none => .error (.unreadable "no such file")
  | some bytes =>
    match Text.Utf8.text? bytes with
    | none => .error (.unreadable "the file is not valid UTF-8")
    | some s =>
      match (Toml.parse s).bind ofMembers? with
      | some settings => settings.check
      | none => .error (.malformed "the file is not a TOML document of the expected form")

end Settings

end RemoteNode
