import RemoteNode.Exchange.RoundTrip
import RemoteNode.Observer.Notice
import RemoteNode.Observer.Registry
import RemoteNode.Session.ChainView
import RemoteNode.Session.Connection
import RemoteNode.Session.Operation
import RemoteNode.Session.PoolIds

/-!
Everything there is while callers use a remote node: what they share, the workers they started and
the code that every thread still has to run. Code is a list of frames; one frame is one step that
no other thread can interrupt. What happens is kept in a log, latest first.
-/

namespace RemoteNode.Session

open Observer (Id Registry Notice Side)

/-- A thread: of a caller, or of a worker. -/
inductive Thread where
  | caller (n : Nat)
  | worker (s : Nat)
  deriving DecidableEq, Repr

def Thread.worker? : Thread → Option Nat
  | caller _ => none
  | worker s => some s

/-- What a caller, a callback or an observer may do. -/
inductive Act where
  /-- Initializes; then, in the callback, does what comes after. -/
  | init (label : String) (after : List Act)
  /-- Asks for an operation; then, in the callback, does what comes after. -/
  | operate (label : String) (o : Operation) (after : List Act)
  | shutdown
  | register (side : Side) (o : Id)
  | unregister (side : Side) (o : Id)
  /-- Reads what is known. -/
  | look
  /-- Ends the callback or the reaction at once. -/
  | panic

/-- What is known at a moment. -/
structure Overview where
  state : State
  chain : ChainView
  feeAddress : String
  deriving DecidableEq

/-- What an act returns. -/
inductive Returned where
  | nothing
  | flag (b : Bool)
  | overview (o : Overview)
  /-- There is no remote node any more. -/
  | gone
  deriving DecidableEq

/-- Who does something. -/
inductive Source where
  | caller
  | observer (o : Id)
  | callback (ticket : Nat)
  deriving DecidableEq, Repr

/-- A callback. Every call that takes one draws a ticket of its own. -/
structure Callback where
  ticket : Nat
  label : String
  /-- The thread that made the call. -/
  thread : Thread
  after : List Act

/-- What a callback is given. -/
inductive Outcome where
  | init (result : Except Failure Unit)
  | operation (o : Operation) (result : Except Failure o.Result)

/-- An operation on its way to its result. -/
structure Job where
  operation : Operation
  callback : Callback

/-- What a refresh asks for. -/
inductive Stage where
  | info
  | header
  | pool (view : Command.PoolView)
  deriving DecidableEq

def Stage.command : Stage → Command
  | info => .info
  | header => .lastHeader
  | pool _ => .poolChanges

def Stage.request : (g : Stage) → g.command.Request
  | info => ()
  | header => ()
  | pool view => view

/-- A task of a worker: a refresh, or a job with what is left of its procedure. -/
inductive Task where
  | refresh (g : Stage)
  | job (j : Job) (rest : Procedure j.operation.Result)

/-- What becomes of a request. -/
inductive Reply where
  | arrival (a : Exchange.Arrival Exchange.Response)
  /-- The code that waits for it panics. -/
  | panic (message : String)

/-- Only the procedure of a job may panic. -/
def Reply.fits : Reply → Task → Bool
  | panic _, .refresh _ => false
  | _, _ => true

/-- Why a task may go on. -/
inductive Ready where
  /-- It has just been made. -/
  | fresh
  /-- Its request may be sent. -/
  | send
  | answered (r : Reply)

/-- A step of code. -/
inductive Frame where
  /-- Acts, one by one. -/
  | script (src : Source) (acts : List Act)
  /-- An act has returned. -/
  | returning (src : Source) (act : Act) (v : Returned)
  | takeStale (cb : Callback)
  | start (cb : Callback)
  | signal (s : Nat)
  | join (s : Nat)
  | beginShutdown (src : Source) (act : Act)
  | forgetChain
  | forgetFeeAddress
  | finishShutdown
  | dispatch (j : Job)
  | enqueue (s : Nat) (j : Job)
  /-- A job has its result. -/
  | conclude (j : Job) (result : Except Failure j.operation.Result)
  | complete (cb : Callback) (o : Outcome)
  | notify (n : Notice)
  | deliver (n : Notice) (rest : List Id)
  /-- Waits for a delivery on another thread to end. -/
  | awaitDelivery (side : Side)
  -- steps of a worker
  | connect
  | noteFee (i : Command.NodeInfo)
  | notePeers (i : Command.NodeInfo)
  | noteKnown (i : Command.NodeInfo)
  | noteHeight (i : Command.NodeInfo)
  | setConnected (b : Bool)
  | askHeader (due : Bool)
  | noteHeader (h : Chain.BlockHeader)
  | askPool
  | notePool (c : Command.PoolChanges)
  /-- A refresh has ended. -/
  | refreshed (result : Except Failure Unit)
  | markInitialized
  | markFailed
  | goLive
  | leave

/-- How far a worker is. -/
inductive Phase where
  /-- It makes its first refresh. -/
  | opening
  /-- It takes jobs and refreshes from time to time. -/
  | live
  /-- It takes no jobs and waits for those it has taken. -/
  | closed
  | ended
  deriving DecidableEq, Repr

/-- What the refreshing task of a worker does. -/
inductive Refreshing where
  | asleep
  | busy
  | over
  deriving DecidableEq, Repr

/-- What a worker remembers between refreshes. -/
structure Memory where
  known : PoolIds
  /-- The top header has to be asked for. -/
  headerDue : Bool
  connected : Bool
  deriving DecidableEq

def Memory.initial : Memory := ⟨[], true, false⟩

/-- A worker. -/
structure Worker where
  /-- It has been told to stop. -/
  stopped : Bool
  /-- The callback of the initialization that started it. -/
  callback : Callback
  phase : Phase
  memory : Memory
  refreshing : Refreshing
  /-- Jobs not taken yet. -/
  queue : List Job
  /-- Tasks that may go on, in the order in which they became ready. -/
  runnable : List (Task × Ready)
  /-- Tasks whose requests are on their way. -/
  waiting : List Task
  /-- The code of its thread. -/
  frames : List Frame

def Worker.new (cb : Callback) : Worker :=
  ⟨false, cb, .opening, .initial, .busy, [], [], [], [.connect]⟩

/-- A delivery that is going on. -/
structure Delivery where
  thread : Thread
  recipients : List Id

/-- Something that happened. -/
inductive Entry where
  | called (cb : Callback)
  /-- The request of a task was sent. -/
  | sent (s : Nat) (task : Task)
  /-- A task goes on with the reply to its request. -/
  | answered (s : Nat) (task : Task) (r : Reply)
  /-- A thread begins to tell something to whoever is registered. -/
  | announced (t : Thread) (n : Notice)
  /-- An observer is told. -/
  | notified (o : Id) (n : Notice)
  | completed (cb : Callback) (o : Outcome) (sameThread : Bool)
  | returned (src : Source) (act : Act) (v : Returned)
  | ended (s : Nat)

/-- Everything there is. -/
structure World where
  connection : Connection
  chain : ChainView
  feeAddress : String
  nodeObservers : Registry
  connectivityObservers : Registry
  nodeDelivery : Option Delivery
  connectivityDelivery : Option Delivery
  /-- The observers that something keeps alive besides a delivery. -/
  kept : List Id
  /-- What an observer does when it is told something. -/
  reaction : Id → Notice → List Act
  workers : List Worker
  /-- The code of the callers' threads. -/
  callers : List (List Frame)
  /-- Clients can be built. -/
  transport : Bool
  timeout : Exchange.Timeout
  /-- The number of tickets drawn. -/
  tickets : Nat
  /-- Nobody can reach the remote node any more. -/
  gone : Bool
  log : List Entry

namespace World

/-- Nothing has happened, and there are `n` callers. -/
def initial (n : Nat) (timeout : Exchange.Timeout) : World where
  connection := .initial
  chain := .initial
  feeAddress := ""
  nodeObservers := []
  connectivityObservers := []
  nodeDelivery := none
  connectivityDelivery := none
  kept := []
  reaction := fun _ _ => []
  workers := []
  callers := List.replicate n []
  transport := true
  timeout := timeout
  tickets := 0
  gone := false
  log := []

def record (w : World) (e : Entry) : World := { w with log := e :: w.log }

def overview (w : World) : Overview := ⟨w.connection.state, w.chain, w.feeAddress⟩

def registry (w : World) : Side → Registry
  | .node => w.nodeObservers
  | .connectivity => w.connectivityObservers

def delivery (w : World) : Side → Option Delivery
  | .node => w.nodeDelivery
  | .connectivity => w.connectivityDelivery

def setRegistry (w : World) (side : Side) (r : Registry) : World :=
  match side with
  | .node => { w with nodeObservers := r }
  | .connectivity => { w with connectivityObservers := r }

def setDelivery (w : World) (side : Side) (d : Option Delivery) : World :=
  match side with
  | .node => { w with nodeDelivery := d }
  | .connectivity => { w with connectivityDelivery := d }

/-- The observer is kept alive, if only by a delivery. -/
def isAlive (w : World) (o : Id) : Bool :=
  let held (d : Option Delivery) := (d.map fun d => d.recipients.contains o).getD false
  w.kept.contains o || held w.nodeDelivery || held w.connectivityDelivery

def frames (w : World) : Thread → List Frame
  | .caller n => (w.callers[n]?).getD []
  | .worker s => ((w.workers[s]?).map (·.frames)).getD []

def updateWorker (w : World) (s : Nat) (f : Worker → Worker) : World :=
  { w with workers := w.workers.modify s f }

def setFrames (w : World) (t : Thread) (fs : List Frame) : World :=
  match t with
  | .caller n => { w with callers := w.callers.set n fs }
  | .worker s => w.updateWorker s fun x => { x with frames := fs }

/-- A call draws a ticket for its callback. -/
def draw (w : World) (t : Thread) (label : String) (after : List Act) : Callback × World :=
  let cb : Callback := ⟨w.tickets, label, t, after⟩
  (cb, { w with tickets := w.tickets + 1 }.record (.called cb))

end World

end RemoteNode.Session
