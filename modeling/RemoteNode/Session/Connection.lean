import RemoteNode.Failure

/-!
The state of the connection and who runs it. Each initialization starts a worker of its own;
workers are numbered in the order in which they start. The connection holds the handle of at most
one worker, and gives it up when that worker is to be stopped.
-/

namespace RemoteNode.Session

/-- How far the connection is. -/
inductive State where
  | notInitialized
  | initializing
  | initialized
  deriving DecidableEq, Repr, Inhabited

def State.name : State → String
  | notInitialized => "NotInitialized"
  | initializing => "Initializing"
  | initialized => "Initialized"

/-- The connection. -/
structure Connection where
  state : State
  /-- A shutdown has begun and not ended. -/
  stopping : Bool
  /-- The worker whose handle is held. -/
  worker : Option Nat
  /-- The worker that was started last, until it is given up. -/
  running : Option Nat
  deriving DecidableEq, Repr

namespace Connection

def initial : Connection := ⟨.notInitialized, false, none, none⟩

instance : Inhabited Connection := ⟨initial⟩

/-- Gives up the worker that a failed initialization left behind. -/
def takeStale (c : Connection) : Option Nat × Connection :=
  if c.state = .notInitialized ∧ c.stopping = false then
    (c.worker, { c with worker := none, running := none })
  else (none, c)

/-- Starts a worker; the handle of one left behind is let go. -/
def start (c : Connection) (worker : Nat) : Except Failure Connection :=
  if c.stopping then .error .interrupted
  else if c.state = .notInitialized then .ok ⟨.initializing, false, some worker, some worker⟩
  else .error .alreadyInitialized

/-- A worker reports that it is ready; tells whether it still may be. -/
def markInitialized (c : Connection) : Bool × Connection :=
  if c.stopping = false ∧ c.state = .initializing then (true, { c with state := .initialized })
  else (false, c)

/-- A worker reports that it failed to become ready. -/
def markFailed (c : Connection) : Connection :=
  if c.stopping = false ∧ c.state = .initializing then { c with state := .notInitialized } else c

/-- The worker that serves operations. -/
def server (c : Connection) : Except Failure Nat :=
  if c.stopping then .error .interrupted
  else match c.state, c.worker with
    | .initialized, some s => .ok s
    | _, _ => .error .notInitialized

/-- How a shutdown begins. -/
inductive Beginning where
  /-- Another shutdown has to end first. -/
  | wait
  /-- There is nothing to stop. -/
  | nothing
  | stop (worker : Nat)
  deriving DecidableEq, Repr

/-- Begins a shutdown; `current` is the worker that asks for it, if one does. -/
def beginShutdown (c : Connection) (current : Option Nat) : Beginning × Connection :=
  if c.stopping then
    (if c.running.isSome ∧ c.running = current then .nothing else .wait, c)
  else match c.worker with
    | some s => (.stop s, { c with worker := none, stopping := true })
    | none => (.nothing, c)

def finishShutdown (c : Connection) : Connection :=
  { c with state := .notInitialized, stopping := false, running := none }

end Connection

end RemoteNode.Session
