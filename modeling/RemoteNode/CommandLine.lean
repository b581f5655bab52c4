import RemoteNode.Settings

/-!
The command line of the watcher. Options with a value take it from the same argument, after `=` or
right after a letter, or from the next one; a value is checked when the next option begins or the
line ends. Options override the file of settings, and the environment stands in for a missing host
or port.
-/

namespace RemoteNode.CommandLine

/-- An option with a value. -/
inductive Choice where
  | file
  | host
  | port
  | timeout
  | pullInterval
  deriving DecidableEq, Repr

/-- An option without a value. -/
inductive Switch where
  | jsonLogs
  | help
  | version
  deriving DecidableEq, Repr

/-- Why a command line cannot be used. -/
inductive UsageError where
  | unknownArgument
  /-- An option has no value, or an empty one where a path is needed. -/
  | missingValue
  /-- A value is no number in the range of its option. -/
  | badValue
  | repeated
  /-- A value is given to an option that takes none. -/
  | needlessValue
  deriving DecidableEq, Repr

/-- Why nothing is watched. -/
inductive Stop where
  | help
  | version
  | usage (e : UsageError)
  deriving DecidableEq, Repr

/-- What a command line asks for. -/
structure Request where
  file : Option String
  host : Option String
  port : Option UInt16
  timeoutMs : Option UInt64
  pullIntervalMs : Option UInt64
  jsonLogs : Bool
  deriving DecidableEq, Repr

/-- A command line that has been read in part. -/
structure State where
  request : Request
  /-- The last option, if it awaits its value or has one that is not checked yet. -/
  pending : Option (Choice × Option String)
  /-- Options are no longer looked for. -/
  plain : Bool

/-- Nothing has been read. -/
def State.initial : State := ⟨⟨none, none, none, none, none, false⟩, none, false⟩

def named? : String → Option (Choice ⊕ Switch)
  | "config" => some (.inl .file)
  | "host" => some (.inl .host)
  | "port" => some (.inl .port)
  | "timeout-ms" => some (.inl .timeout)
  | "pull-interval-ms" => some (.inl .pullInterval)
  | "json-logs" => some (.inr .jsonLogs)
  | "help" => some (.inr .help)
  | "version" => some (.inr .version)
  | _ => none

def lettered? : Char → Option (Choice ⊕ Switch)
  | 'c' => some (.inl .file)
  | 'h' => some (.inr .help)
  | 'V' => some (.inr .version)
  | _ => none

def Request.has (r : Request) : Choice → Bool
  | .file => r.file.isSome
  | .host => r.host.isSome
  | .port => r.port.isSome
  | .timeout => r.timeoutMs.isSome
  | .pullInterval => r.pullIntervalMs.isSome

def positive? (bound : Nat) (s : String) : Option Nat :=
  let digits := match s.toList with
    | '+' :: rest => rest
    | cs => cs
  (Text.Decimal.natural? digits).bind fun n => if 0 < n ∧ n < bound then some n else none

/-- Checks a value and takes it. -/
def Request.set (r : Request) (o : Choice) (v : String) : Except UsageError Request :=
  let number {α : Type} (bound : Nat) (set : Nat → α) : Except UsageError α :=
    match positive? bound v with
    | some n => .ok (set n)
    | none => .error .badValue
  match o with
  | .file => if v.isEmpty then .error .missingValue else .ok { r with file := some v }
  | .host => .ok { r with host := some v }
  | .port => number UInt16.size fun n => { r with port := some (UInt16.ofNat n) }
  | .timeout => number UInt64.size fun n => { r with timeoutMs := some (UInt64.ofNat n) }
  | .pullInterval => number UInt64.size fun n => { r with pullIntervalMs := some (UInt64.ofNat n) }

/-- Takes a value for an option that may be given once. -/
def Request.give (r : Request) (o : Choice) (v : String) : Except UsageError Request :=
  if r.has o then .error .repeated else r.set o v

/-- Checks the value of the last option. -/
def State.settle (s : State) : Except UsageError State :=
  match s.pending with
  | none => .ok s
  | some (_, none) => .error .missingValue
  | some (o, some v) => (s.request.give o v).map fun r => { s with request := r, pending := none }

/-- Stops with a usage error if there is one. -/
def orUsage {α : Type} : Except UsageError α → Except Stop α
  | .ok a => .ok a
  | .error e => .error (.usage e)

/-- An option, with its value if it stands in the same argument. -/
def State.choose (s : State) (o : Choice) (v : Option String) : Except Stop State := do
  let s ← orUsage s.settle
  match v with
  | some v => (orUsage (s.request.give o v)).map fun r => { s with request := r }
  | none => .ok { s with pending := some (o, none) }

def State.switch (s : State) (w : Switch) : Except Stop State := do
  let s ← orUsage s.settle
  match w with
  | .help => .error .help
  | .version => .error .version
  | .jsonLogs =>
    if s.request.jsonLogs then .error (.usage .repeated)
    else .ok { s with request := { s.request with jsonLogs := true } }

/-- An argument after two dashes. -/
def State.long (s : State) (cs : List Char) : Except Stop State :=
  let (name, value) := Text.cut '=' cs
  match named? (String.ofList name), value with
  | some (.inl o), v => s.choose o (v.map String.ofList)
  | some (.inr w), none => s.switch w
  | some (.inr _), some _ => .error (.usage .needlessValue)
  | none, _ => .error (.usage .unknownArgument)

/-- The value right after a letter: all that follows, without an equals sign before it. -/
def attached : List Char → Option String
  | [] => none
  | '=' :: cs => some (String.ofList cs)
  | cs => some (String.ofList cs)

/-- Letters after one dash. -/
def State.letters (s : State) : List Char → Except Stop State
  | [] => .ok s
  | c :: cs =>
    match lettered? c with
    | some (.inl o) => s.choose o (attached cs)
    | some (.inr w) => do
      let s ← s.switch w
      s.letters cs
    | none => .error (.usage .unknownArgument)

/-- An argument that is no option: the value of the option before it. -/
def State.value (s : State) (arg : String) : Except Stop State :=
  match s.pending with
  | some (o, none) => .ok { s with pending := some (o, some arg) }
  | _ => .error (.usage .unknownArgument)

def State.step (s : State) (arg : String) : Except Stop State :=
  if s.plain then .error (.usage .unknownArgument)
  else match arg.toList with
    | ['-', '-'] => .ok { s with plain := true }
    | '-' :: '-' :: cs => s.long cs
    | '-' :: c :: cs => s.letters (c :: cs)
    | _ => s.value arg

/-- What stands in the environment. -/
structure Environment where
  host : Option String
  port : Option String

/-- Takes a missing host or port from the environment. -/
def Request.complete (r : Request) (env : Environment) : Except UsageError Request := do
  let r := { r with host := r.host <|> env.host }
  match r.port, env.port with
  | none, some v => r.set .port v
  | _, _ => .ok r

def parse (env : Environment) (args : List String) : Except Stop Request := do
  let s ← args.foldlM State.step State.initial
  let s ← orUsage s.settle
  orUsage (s.request.complete env)

/-- Why a command line leads to no settings. -/
inductive SettingsError where
  | file (path : String) (cause : Settings.Error)
  | options (cause : Settings.Error)
  deriving DecidableEq

def SettingsError.message : SettingsError → String
  | file path _ => "failed to load " ++ path
  | options _ => "invalid proxy configuration"

def SettingsError.cause : SettingsError → Settings.Error
  | file _ cause => cause
  | options cause => cause

def Request.over (r : Request) (s : Settings) : Settings where
  endpoint := ⟨r.host.getD s.endpoint.host, r.port.getD s.endpoint.port⟩
  timeout := (r.timeoutMs.map fun n => .ofMilliseconds n.toNat).getD s.timeout
  pullInterval := (r.pullIntervalMs.map fun n => .ofMilliseconds n.toNat).getD s.pullInterval

/-- The settings that a command line asks for, where `read` gives the bytes of a file. -/
def Request.settings (r : Request) (read : String → Option (List UInt8)) :
    Except SettingsError Settings := do
  let base ← match r.file with
    | none => .ok Settings.standard
    | some path =>
      match Settings.ofFile (read path) with
      | .ok s => .ok s
      | .error e => .error (.file path e)
  match (r.over base).check with
  | .ok s => .ok s
  | .error e => .error (.options e)

end RemoteNode.CommandLine
