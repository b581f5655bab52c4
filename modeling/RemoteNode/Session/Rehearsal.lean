import RemoteNode.Session.Run

/-!
A session rehearsed against a node whose replies are written down. One caller acts step by step, and
the requests of a step get the replies of the step in order. When these run out, a request is held
until a later step goes on with it. The first request of every refresh but the first is always held,
so that a worker does nothing between the steps, and a `tick` lets one refresh happen.

A worker that an observer or a callback starts finds no node. Once one of these has shut the remote
node down, a step ends with the worker it was shut down on: what a worker started after that asks
for is not sent, and it waits until it is told to stop.
-/

namespace RemoteNode.Session

open Observer (Id Notice Side)

/-- Who waits for a reply. -/
inductive Asker where
  | refresh (s : Nat)
  | job (ticket : Nat)
  deriving DecidableEq

/-- Who waits for the reply to a task's request. -/
def Task.asker (s : Nat) : Task → Asker
  | refresh _ => .refresh s
  | job j _ => .job j.callback.ticket

/-- A request on its way. -/
structure Pending where
  worker : Nat
  place : Nat
  task : Task

def Pending.asker (q : Pending) : Asker := q.task.asker q.worker

/-- What is posted. A job that has ended posts nothing. -/
def Pending.posted? (q : Pending) : Option Exchange.Posted :=
  match q.task with
  | .refresh g => some (Exchange.post g.command g.request)
  | .job _ (.ask c r _) => some (Exchange.post c r)
  | .job _ (.done _) => none

def World.pending (w : World) : List Pending :=
  w.workers.zipIdx.flatMap fun (x, s) => x.waiting.zipIdx.map fun (task, i) => ⟨s, i, task⟩

/-- A rehearsal. -/
structure Rehearsal where
  world : World
  /-- Something listens where the node should be. -/
  reachable : Bool
  /-- The tickets of the initializations that the caller began. Only their workers find the node. -/
  admitted : List Nat
  /-- Who waits for a reply that is held back. -/
  held : List Asker
  /-- The names of the observers made so far. -/
  names : List String
  /-- How long the log was when the step began. -/
  begun : Nat

/-- What an observer does when it is told something, where it may know itself. -/
abbrev Reaction := Id → Notice → List Act

/-- A step of a rehearsal. -/
inductive Cue where
  | init (label : String) (after : List Act) (replies : List Reply)
  | operate (label : String) (o : Operation) (after : List Act) (replies : List Reply)
  /-- Lets a refresh happen. -/
  | tick (replies : List Reply)
  /-- Goes on with the request that is held for a label. -/
  | finish (label : String) (replies : List Reply)
  | shutdown
  /-- Looks at the top header. -/
  | header
  /-- Registers the observer of a name; the first time it is made. -/
  | register (side : Side) (name : String) (reaction : Reaction)
  | unregister (side : Side) (name : String) (reaction : Reaction)
  /-- Lets go of the observer of a name. -/
  | forget (name : String)
  /-- Lets go of the remote node. -/
  | release

/-- How a step ended. -/
inductive Verdict where
  /-- What was waited for has happened. -/
  | done
  /-- A request is held. -/
  | pending
  /-- The worker has ended. -/
  | stopped
  /-- There was nothing to do. -/
  | skipped
  | flag (b : Bool)
  | header (h : Chain.BlockHeader)

/-- A callback that was called, with what its last act returned. -/
structure Completion where
  callback : Callback
  outcome : Outcome
  sameThread : Bool
  returned : Option Returned

/-- Something that an observer was told or did. -/
inductive Happening where
  | told (name : String) (n : Notice)
  | did (name : String) (act : Act) (v : Returned)

/-- What a step brought. -/
structure Account where
  verdict : Verdict
  /-- By label. -/
  completions : List Completion
  /-- The labels that wait for a held reply, in order. -/
  pending : List String
  /-- The requests that were answered. -/
  answered : List Exchange.Posted
  happenings : List Happening
  overview : Overview

namespace Rehearsal

/-- Enough moves for every step. -/
def patience : Nat := 1000000

def begin (reachable transport : Bool) (timeout : Exchange.Timeout) : Rehearsal where
  world := { World.initial 1 timeout with transport := transport }
  reachable := reachable
  admitted := []
  held := []
  names := []
  begun := 0

/-- Makes a move if it can be made. -/
def move (r : Rehearsal) (m : Move) : Rehearsal := { r with world := (r.world.step m).getD r.world }

/-- Lets the threads run, and holds nothing back for those who no longer wait. -/
def settle (r : Rehearsal) : Rehearsal :=
  let w := r.world.settle patience
  { r with world := w, held := r.held.filter fun a => w.pending.any fun q => q.asker = a }

/-- What the step has brought so far, latest first. -/
def entries (r : Rehearsal) : List Entry := r.world.log.take (r.world.log.length - r.begun)

/-- An observer or a callback has shut the remote node down in this step. -/
def isClosing (r : Rehearsal) : Bool :=
  r.entries.any fun
    | .returned (.observer _) .shutdown (.flag b) => b
    | .returned (.callback _) .shutdown (.flag b) => b
    | _ => false

/-- The node does not take the request. -/
def refuses (r : Rehearsal) (q : Pending) : Bool :=
  !r.reachable || match r.world.workers[q.worker]? with
    | some x => !r.admitted.contains x.callback.ticket
    | none => true

/-- The worker has made its first refresh. -/
def isOpen (r : Rehearsal) (s : Nat) : Bool :=
  match r.world.workers[s]? with
  | some x => x.phase != .opening
  | none => false

/-- The request with which a refresh begins, other than the first. -/
def beginsRefresh (r : Rehearsal) (q : Pending) : Bool :=
  match q.task with
  | .refresh .info => r.isOpen q.worker
  | _ => false

/-- The label under which a request is held. -/
def label (r : Rehearsal) (q : Pending) : String :=
  match q.task with
  | .job j _ => j.callback.label
  | .refresh _ =>
    match r.world.workers[q.worker]? with
    | some x => if x.phase = .opening then x.callback.label else "tick"
    | none => "tick"

/-- The requests that are held and wait for a step. -/
def holds (r : Rehearsal) : List Pending :=
  r.world.pending.filter fun q =>
    r.held.contains q.asker && !r.refuses q && !r.beginsRefresh q

def answer (r : Rehearsal) (q : Pending) (a : Reply) : Rehearsal :=
  { r.move (.reply q.worker q.place a) with held := r.held.filter (· != q.asker) }

/-- Gives replies to requests until all wait that are left; returns those that were answered. -/
def feed (r : Rehearsal) (replies : List Reply) : Nat → Rehearsal × List Exchange.Posted
  | 0 => (r, [])
  | n + 1 =>
    let r := r.settle
    match r.world.pending.find? fun q => !r.held.contains q.asker with
    | none => (r, [])
    | some q =>
      if r.refuses q && !r.isClosing then
        (r.answer q (.arrival (.failed (.other "nothing listens there")))).feed replies n
      else if r.refuses q || r.beginsRefresh q then
        feed { r with held := r.held ++ [q.asker] } replies n
      else match replies with
        | [] => feed { r with held := r.held ++ [q.asker] } [] n
        | a :: rest =>
          let (last, answered) := (r.answer q a).feed rest n
          (last, q.posted?.toList ++ answered)

def proceed (r : Rehearsal) (q : Pending) (a : Reply) (rest : List Reply) :
    Rehearsal × List Exchange.Posted :=
  let (r, answered) := (r.answer q a).feed rest patience
  (r, q.posted?.toList ++ answered)

/-- The callback of a ticket has been called. -/
def hasCompleted (r : Rehearsal) (ticket : Nat) : Bool :=
  r.world.log.any fun
    | .completed cb _ _ => cb.ticket = ticket
    | _ => false

def verdictOfCall (r : Rehearsal) (ticket : Nat) : Verdict :=
  let waits (q : Pending) : Bool := match q.task with
    | .job j _ => j.callback.ticket = ticket
    | .refresh _ =>
      match r.world.workers[q.worker]? with
      | some x => x.callback.ticket = ticket
      | none => false
  if r.hasCompleted ticket then .done
  else if r.holds.any waits then .pending
  else .stopped

def verdictOfRefresh (r : Rehearsal) (s : Nat) : Verdict :=
  match r.world.pending.find? fun q => q.asker = .refresh s with
  | some q => if r.beginsRefresh q then .done else .pending
  | none => .stopped

/-- How far the task of a request is, now that it was answered. -/
def verdictOf (r : Rehearsal) (q : Pending) (opening : Option Nat) : Verdict :=
  match q.task, opening with
  | .job j _, _ => r.verdictOfCall j.callback.ticket
  | .refresh _, some ticket => r.verdictOfCall ticket
  | .refresh _, none => r.verdictOfRefresh q.worker

/-- The ticket of the initialization that a request belongs to. -/
def openingTicket (r : Rehearsal) (q : Pending) : Option Nat :=
  match r.world.workers[q.worker]? with
  | some x => if x.phase = .opening then some x.callback.ticket else none
  | none => none

/-- The last observer of a name that is kept. -/
def observer? (r : Rehearsal) (name : String) : Option Id :=
  (r.names.zipIdx.filter fun (n, o) => n = name && r.world.kept.contains o).getLast?.map (·.2)

/-- The observer of a name, which is made if there is none. -/
def summon (r : Rehearsal) (name : String) (reaction : Reaction) : Id × Rehearsal :=
  match r.observer? name with
  | some o => (o, r)
  | none =>
    let o := r.names.length
    let old := r.world.reaction
    (o, { r with
      names := r.names ++ [name]
      world := { r.world with
        kept := r.world.kept ++ [o]
        reaction := fun p n => if p = o then reaction o n else old p n } })

/-- The flag that the caller's last act returned. -/
def lastFlag (r : Rehearsal) : Bool :=
  match r.world.lastReturned? with
  | some (.flag b) => b
  | _ => false

def act (r : Rehearsal) (a : Act) (replies : List Reply) : Rehearsal × List Exchange.Posted :=
  (r.move (.call 0 a)).feed replies patience

/-- Takes a step: how it ended and which requests were answered. -/
def perform (r : Rehearsal) : Cue → Rehearsal × Verdict × List Exchange.Posted
  | .init label after replies =>
    let ticket := r.world.tickets
    let (r, answered) :=
      { r with admitted := ticket :: r.admitted }.act (.init label after) replies
    (r, r.verdictOfCall ticket, answered)
  | .operate label o after replies =>
    let ticket := r.world.tickets
    let (r, answered) := r.act (.operate label o after) replies
    (r, r.verdictOfCall ticket, answered)
  | .tick replies =>
    let waiting := r.world.pending.find? fun q => r.held.contains q.asker && r.beginsRefresh q
    match waiting, replies with
    | some q, a :: rest =>
      let (r, answered) := r.proceed q a rest
      (r, r.verdictOfRefresh q.worker, answered)
    | _, _ => (r, .skipped, [])
  | .finish label replies =>
    match r.holds.find? fun q => r.label q = label, replies with
    | some q, a :: rest =>
      let opening := r.openingTicket q
      let (r, answered) := r.proceed q a rest
      (r, r.verdictOf q opening, answered)
    | _, _ => (r, .skipped, [])
  | .shutdown =>
    let (r, answered) := r.act .shutdown []
    (r, .flag r.lastFlag, answered)
  | .header => (r, .header r.world.chain.header, [])
  | .register side name reaction =>
    let (o, r) := r.summon name reaction
    let (r, answered) := r.act (.register side o) []
    (r, .flag r.lastFlag, answered)
  | .unregister side name reaction =>
    let (o, r) := r.summon name reaction
    let (r, answered) := r.act (.unregister side o) []
    (r, .flag r.lastFlag, answered)
  | .forget name =>
    match r.observer? name with
    | some o =>
      ({ r with world := { r.world with kept := r.world.kept.erase o } }, .flag true, [])
    | none => (r, .flag false, [])
  | .release =>
    let (r, answered) := (r.move (.release 0)).feed [] patience
    (r, .done, answered)

/-- What the callback of a ticket returned last. -/
def returnedTo (ticket : Nat) (entries : List Entry) : Option Returned :=
  (entries.filterMap fun
    | .returned (.callback t) _ v => if t = ticket then some v else none
    | _ => none).getLast?

def completions (entries : List Entry) : List Completion :=
  (entries.filterMap fun
    | .completed cb o same => some ⟨cb, o, same, returnedTo cb.ticket entries⟩
    | _ => none).mergeSort fun a b => a.callback.label ≤ b.callback.label

def happenings (names : List String) (entries : List Entry) : List Happening :=
  entries.filterMap fun
    | .notified o n => some (.told (names.getD o "") n)
    | .returned (.observer o) a v => some (.did (names.getD o "") a v)
    | _ => none

/-- Takes a step and tells what it brought. -/
def step (r : Rehearsal) (cue : Cue) : Rehearsal × Account :=
  let (r, verdict, answered) := { r with begun := r.world.log.length }.perform cue
  let entries := r.entries.reverse
  (r, {
    verdict := verdict
    completions := completions entries
    pending := (r.holds.map r.label).mergeSort (· ≤ ·)
    answered := answered
    happenings := happenings r.names entries
    overview := r.world.overview })

def play (r : Rehearsal) : List Cue → List Account
  | [] => []
  | cue :: rest =>
    let (r, account) := r.step cue
    account :: r.play rest

end Rehearsal

end RemoteNode.Session
