import RemoteNode.Session.World

/-!
The steps of a world. A thread runs its code frame by frame; a frame that has to wait for another
thread does not run. A worker whose code has ended chooses what comes next: the first task that
may go on, the next job of its queue, or what stopping asks for. A request leaves its worker once
before it is sent, and a task that has been told to stop is ended instead of going on.
-/

namespace RemoteNode.Session

open Observer (Id Registry Notice Side)

/-- The answer of the node to a request, as a caller is told. -/
def answer (c : Command) (limit : Exchange.Timeout)
    (a : Exchange.Arrival Exchange.Response) : Except Exchange.Error c.Content :=
  Exchange.outcome c limit a

/-- The callback of a job is given a result. -/
def Job.outcome (j : Job) (r : Except Failure j.operation.Result) : Outcome :=
  .operation j.operation r

/-- The worker has nothing to run and stays. -/
def Worker.isIdle (x : Worker) : Bool := x.frames.isEmpty && x.phase != .ended

/-- The worker takes no more jobs into its queue. -/
def Worker.isClosed (x : Worker) : Bool := x.phase = .closed || x.phase = .ended

namespace World

/-! ### Notifications -/

/-- Begins a delivery to those who are registered and alive. Waits while another thread delivers. -/
def notify (w : World) (t : Thread) (n : Notice) : Option (World × List Frame) :=
  match w.delivery n.side with
  | some _ => none
  | none =>
    let recipients := (w.registry n.side).live w.isAlive
    let w := (w.setRegistry n.side recipients).record (.announced t n)
    if recipients.isEmpty then some (w, [])
    else some (w.setDelivery n.side (some ⟨t, recipients⟩), [.deliver n recipients])

/-- Tells the next recipient, who reacts. -/
def deliver (w : World) (n : Notice) : List Id → World × List Frame
  | [] => (w.setDelivery n.side none, [])
  | o :: rest =>
    (w.record (.notified o n), [.script (.observer o) (w.reaction o n), .deliver n rest])

/-! ### Acts -/

/-- Begins an act and says what has to run for it. -/
def act (w : World) (t : Thread) (src : Source) (a : Act) : World × List Frame :=
  match a with
  | .init label after =>
    let (cb, w) := w.draw t label after
    (w, [.takeStale cb, .returning src a .nothing])
  | .operate label o after =>
    let (cb, w) := w.draw t label after
    (w, [.dispatch ⟨o, cb⟩, .returning src a .nothing])
  | .shutdown => (w, [.beginShutdown src a])
  | .register side o =>
    let (added, r) := (w.registry side).add w.isAlive o
    (w.setRegistry side r, [.returning src a (.flag added)])
  | .unregister side o =>
    let (removed, r) := (w.registry side).remove o
    (w.setRegistry side r,
      (if removed then [.awaitDelivery side] else []) ++ [.returning src a (.flag removed)])
  | .look => (w, [.returning src a (.overview w.overview)])
  | .panic => (w, [])

/-- Runs the first of some acts. A panic drops those that follow it. -/
def script (w : World) (t : Thread) (src : Source) : List Act → World × List Frame
  | [] => (w, [])
  | .panic :: _ => (w, [])
  | a :: rest =>
    if w.gone then (w, [.returning src a .gone, .script src rest])
    else
      let (w, fs) := w.act t src a
      (w, fs ++ [.script src rest])

/-! ### The connection -/

/-- Starts a worker for a callback, or tells the callback why not. -/
def start (w : World) (cb : Callback) : World × List Frame :=
  match w.connection.start w.workers.length with
  | .error e => (w, [.complete cb (.init (.error e))])
  | .ok c =>
    let w := match w.connection.worker with
      | some s => w.updateWorker s fun x => { x with stopped := true }
      | none => w
    ({ w with connection := c, workers := w.workers ++ [Worker.new cb] }, [])

def beginShutdown (w : World) (t : Thread) (src : Source) (a : Act) :
    Option (World × List Frame) :=
  match w.connection.beginShutdown t.worker? with
  | (.wait, _) => none
  | (.nothing, _) => some (w, [.returning src a (.flag false)])
  | (.stop s, c) =>
    some ({ w with connection := c },
      [.signal s, .join s, .forgetChain, .forgetFeeAddress, .finishShutdown,
        .returning src a (.flag true)])

def hasEnded (w : World) (s : Nat) : Bool :=
  match w.workers[s]? with
  | some x => x.phase = .ended
  | none => true

/-! ### Jobs -/

/-- Puts a job into the queue of a worker that still takes it. -/
def enqueue (w : World) (s : Nat) (j : Job) : World × List Frame :=
  match w.workers[s]? with
  | some x =>
    if x.isClosed then (w, [.complete j.callback (j.outcome (.error .interrupted))])
    else (w.updateWorker s fun x => { x with queue := x.queue ++ [j] }, [])
  | none => (w, [.complete j.callback (j.outcome (.error .interrupted))])

/-- What a result is kept for besides the callback. -/
def conclude (w : World) (j : Job) (r : Except Failure j.operation.Result) : World × List Frame :=
  let w := match j with
    | ⟨.feeAddress, _⟩ =>
      match r with
      | .ok address => { w with feeAddress := address }
      | .error _ => w
    | _ => w
  (w, [.complete j.callback (j.outcome r)])

/-- Lets a task go on later, after those that are ready. -/
def makeReady (w : World) (s : Nat) (task : Task) (r : Ready) : World :=
  w.updateWorker s fun x => { x with runnable := x.runnable ++ [(task, r)] }

/-- Goes on with a job until it asks or ends. -/
def advance (w : World) (s : Nat) (j : Job) (p : Procedure j.operation.Result) :
    World × List Frame :=
  match p with
  | .done r => (w, [.conclude j r])
  | .ask c r next => (w.makeReady s (.job j (.ask c r next)) .send, [])

/-! ### Refreshes -/

def remember (w : World) (s : Nat) (f : Memory → Memory) : World :=
  w.updateWorker s fun x => { x with memory := f x.memory }

/-- The code for an answer that a refresh was waiting for. -/
def refreshAnswered (g : Stage) (limit : Exchange.Timeout)
    (a : Exchange.Arrival Exchange.Response) : List Frame :=
  match g with
  | .info =>
    match answer .info limit a with
    | .ok i => [.noteFee i, .notePeers i, .noteKnown i, .noteHeight i]
    | .error e =>
      (if e.isTransient then [.setConnected false] else []) ++
        [.refreshed (.error (.ofExchange e))]
  | .header =>
    match answer .lastHeader limit a with
    | .ok h => [.noteHeader h.header, .askPool]
    | .error e => [.refreshed (.error (.ofExchange e))]
  | .pool _ =>
    match answer .poolChanges limit a with
    | .ok c => [.notePool c]
    | .error e => [.refreshed (.error (.ofExchange e))]

/-- Takes the connectivity and tells observers if it changed. -/
def setConnected (w : World) (s : Nat) (x : Worker) (b : Bool) : World × List Frame :=
  if x.memory.connected = b then (w, [])
  else (w.remember s fun m => { m with connected := b }, [.notify (.connected b)])

/-- Takes the changes of the pool and tells observers what they really change. -/
def notePool (w : World) (s : Nat) (x : Worker) (c : Command.PoolChanges) : World × List Frame :=
  if c.tailIsActual then
    let (known, update) := x.memory.known.change (c.added.map Chain.Transaction.id) c.deleted
    let w := w.remember s fun m => { m with known := known }
    (w, (if update.isEmpty then [] else [.notify (.pool update.added update.removed)]) ++
      [.refreshed (.ok ())])
  else (w.remember s fun m => { m with headerDue := true }, [.refreshed (.ok ())])

/-- The code after a refresh: the first decides whether the connection comes about. -/
def refreshed (w : World) (s : Nat) (x : Worker) (r : Except Failure Unit) : World × List Frame :=
  match x.phase, r with
  | .opening, .ok () => (w, [.markInitialized])
  | .opening, .error e =>
    (w, [.setConnected false, .forgetChain, .markFailed, .complete x.callback (.init (.error e)),
      .leave])
  | _, _ => (w.updateWorker s fun x => { x with refreshing := .asleep }, [])

/-- The steps that only workers take. -/
def workerFrame (w : World) (s : Nat) (x : Worker) (f : Frame) : World × List Frame :=
  match f with
  | .connect =>
    if w.transport then (w.makeReady s (.refresh .info) .send, [])
    else
      (w, [.markFailed, .complete x.callback
        (.init (.error (.connectionFailed "no transport is available"))), .leave])
  | .noteFee i => ({ w with chain := { w.chain with minimalFee := i.minFee } }, [])
  | .notePeers i =>
    let (changed, chain) := w.chain.withPeers i.peerCount
    ({ w with chain := chain }, if changed then [.notify (.peers i.peerCount)] else [])
  | .noteKnown i =>
    let (raised, chain) := w.chain.raiseKnown (highest i)
    ({ w with chain := chain }, if raised then [.notify (.knownHeight (highest i))] else [])
  | .noteHeight i =>
    let (raised, chain) := w.chain.raiseNode i.height
    ({ w with chain := chain }, [.setConnected (0 < i.peerCount), .askHeader raised])
  | .setConnected b => w.setConnected s x b
  | .askHeader due =>
    if due || x.memory.headerDue || w.chain.header.hash.isZero then
      (w.makeReady s (.refresh .header) .send, [])
    else (w, [.askPool])
  | .noteHeader h =>
    let (changed, chain) := w.chain.withHeader h
    let w := ({ w with chain := chain } : World).remember s fun m => { m with headerDue := false }
    (w, if changed then [.notify (.localHeight h.index), .notify (.header h)] else [])
  | .askPool =>
    (w.makeReady s (.refresh (.pool ⟨w.chain.header.hash, x.memory.known⟩)) .send, [])
  | .notePool c => w.notePool s x c
  | .refreshed r => w.refreshed s x r
  | .markInitialized =>
    let (marked, c) := w.connection.markInitialized
    if marked then ({ w with connection := c }, [.complete x.callback (.init (.ok ())), .goLive])
    else (w, [.setConnected false, .complete x.callback (.init (.error .interrupted)), .leave])
  | .goLive =>
    (w.updateWorker s fun x => { x with phase := .live, refreshing := .asleep }, [])
  | .leave =>
    ((w.updateWorker s fun x => { x with phase := .ended, refreshing := .over }).record (.ended s),
      [])
  | _ => (w, [])

/-! ### Frames -/

/-- Runs a frame on a thread: the world after it and the code that has to run next. Nothing if the
thread has to wait. -/
def runFrame (w : World) (t : Thread) (f : Frame) : Option (World × List Frame) :=
  match f with
  | .script src acts => some (w.script t src acts)
  | .returning src a v => some (w.record (.returned src a v), [])
  | .takeStale cb =>
    match w.connection.takeStale with
    | (some s, c) => some ({ w with connection := c }, [.signal s, .join s, .start cb])
    | (none, c) => some ({ w with connection := c }, [.start cb])
  | .start cb => some (w.start cb)
  | .signal s => some (w.updateWorker s fun x => { x with stopped := true }, [])
  | .join s => if t = .worker s ∨ w.hasEnded s then some (w, []) else none
  | .beginShutdown src a => w.beginShutdown t src a
  | .forgetChain => some ({ w with chain := .initial }, [])
  | .forgetFeeAddress => some ({ w with feeAddress := "" }, [])
  | .finishShutdown => some ({ w with connection := w.connection.finishShutdown }, [])
  | .dispatch j =>
    match w.connection.server with
    | .ok s => some (w, [.enqueue s j])
    | .error e => some (w, [.complete j.callback (j.outcome (.error e))])
  | .enqueue s j => some (w.enqueue s j)
  | .conclude j r => some (w.conclude j r)
  | .complete cb o =>
    some (w.record (.completed cb o (t = cb.thread)), [.script (.callback cb.ticket) cb.after])
  | .notify n => w.notify t n
  | .deliver n rest => some (w.deliver n rest)
  | .awaitDelivery side =>
    match w.delivery side with
    | some d => if d.thread = t then some (w, []) else none
    | none => some (w, [])
  | .markFailed => some ({ w with connection := w.connection.markFailed }, [])
  | f =>
    match t with
    | .worker s =>
      match w.workers[s]? with
      | some x => some (w.workerFrame s x f)
      | none => some (w, [])
    | .caller _ => some (w, [])

def run (w : World) (t : Thread) : Option World :=
  match w.frames t with
  | [] => none
  | f :: rest => (w.runFrame t f).map fun (w, fs) => w.setFrames t (fs ++ rest)

/-! ### Tasks -/

/-- Ends a task because its worker was told to stop. -/
def cancel (w : World) (s : Nat) (x : Worker) (task : Task) : World × List Frame :=
  match task with
  | .refresh _ =>
    if x.phase = .opening then (w, [.refreshed (.error .interrupted)])
    else (w.updateWorker s fun x => { x with refreshing := .over }, [.setConnected false])
  | .job j _ => (w, [.complete j.callback (j.outcome (.error .interrupted))])

/-- Goes on with a task whose request was answered. -/
def continueWith (w : World) (s : Nat) (task : Task) (r : Reply) : World × List Frame :=
  match r, task with
  | .arrival a, .refresh g => (w, refreshAnswered g w.timeout a)
  | .arrival a, .job j (.ask c _ next) =>
    match answer c w.timeout a with
    | .ok content => w.advance s j (next content)
    | .error e => (w, [.conclude j (.error (.ofExchange e))])
  | .arrival _, .job j (.done r) => (w, [.conclude j r])
  | .panic m, .job j _ => (w, [.conclude j (.error (.internal m))])
  | .panic m, .refresh _ => (w, [.refreshed (.error (.internal m))])

def resume (w : World) (s : Nat) (task : Task) (r : Ready) : World × List Frame :=
  match r, task with
  | .send, task =>
    let w := w.updateWorker s fun x => { x with waiting := x.waiting ++ [task] }
    (w.record (.sent s task), [])
  | .fresh, .job j p => w.advance s j p
  | .fresh, .refresh g => (w.makeReady s (.refresh g) .send, [])
  | .answered r, task => (w.record (.answered s task r)).continueWith s task r

def poll (w : World) (s : Nat) (x : Worker) : Option World :=
  match x.runnable with
  | [] => none
  | (task, r) :: rest =>
    let w := w.updateWorker s fun x => { x with runnable := rest }
    let (w, fs) := if x.stopped then w.cancel s x task else w.resume s task r
    some (w.setFrames (.worker s) fs)

/-- Ends a task whose request is on its way. -/
def interrupt (w : World) (s : Nat) (x : Worker) (i : Nat) : Option World :=
  match x.stopped, x.waiting[i]? with
  | true, some task =>
    let w := w.updateWorker s fun x => { x with waiting := x.waiting.eraseIdx i }
    let (w, fs) := w.cancel s x task
    some (w.setFrames (.worker s) fs)
  | _, _ => none

def reply (w : World) (s i : Nat) (r : Reply) : Option World :=
  match w.workers[s]? with
  | none => none
  | some x =>
    match x.waiting[i]? with
    | none => none
    | some task =>
      if r.fits task then
        some (w.updateWorker s fun x =>
          { x with
            waiting := x.waiting.eraseIdx i
            runnable := x.runnable ++ [(task, .answered r)] })
      else none

/-- Begins the next refresh, or ends refreshing when the worker was told to stop. -/
def wake (w : World) (s : Nat) (x : Worker) : Option World :=
  if x.refreshing != .asleep then none
  else if x.stopped then
    some ((w.updateWorker s fun x => { x with refreshing := .over }).setFrames (.worker s)
      [.setConnected false])
  else
    some ((w.updateWorker s fun x => { x with refreshing := .busy }).makeReady s (.refresh .info)
      .send)

def take (w : World) (s : Nat) (x : Worker) : Option World :=
  match x.phase, x.queue with
  | .live, j :: rest =>
    some ((w.updateWorker s fun x => { x with queue := rest }).makeReady s
      (.job j j.operation.procedure) .fresh)
  | _, _ => none

def close (w : World) (s : Nat) (x : Worker) : Option World :=
  if x.phase = .live && x.stopped then
    some (w.updateWorker s fun x => { x with phase := .closed })
  else none

/-- Rejects a job that was not taken. -/
def reject (w : World) (s : Nat) (x : Worker) : Option World :=
  match x.phase, x.queue with
  | .closed, j :: rest =>
    some ((w.updateWorker s fun x => { x with queue := rest }).setFrames (.worker s)
      [.complete j.callback (j.outcome (.error .interrupted))])
  | _, _ => none

def finish (w : World) (s : Nat) (x : Worker) : Option World :=
  if x.phase = .closed && x.queue.isEmpty && x.runnable.isEmpty && x.waiting.isEmpty &&
      x.refreshing = .over then
    some (w.setFrames (.worker s) [.leave])
  else none

end World

/-- What an idle worker may do next. -/
inductive Turn where
  | poll
  | interrupt (i : Nat)
  | wake
  | take
  | close
  | reject
  | finish
  deriving DecidableEq, Repr

/-- A step of a world. -/
inductive Move where
  /-- A thread runs a frame. -/
  | run (t : Thread)
  /-- A caller whose code has ended does something. -/
  | call (n : Nat) (a : Act)
  /-- A caller lets go of the remote node for all, which shuts it down. -/
  | release (n : Nat)
  /-- The reply to a request of a worker comes. -/
  | reply (s i : Nat) (r : Reply)
  | turn (s : Nat) (t : Turn)

namespace World

def turn (w : World) (s : Nat) (t : Turn) : Option World :=
  match w.workers[s]? with
  | none => none
  | some x =>
    if x.isIdle then
      match t with
      | .poll => w.poll s x
      | .interrupt i => w.interrupt s x i
      | .wake => w.wake s x
      | .take => w.take s x
      | .close => w.close s x
      | .reject => w.reject s x
      | .finish => w.finish s x
    else none

def step (w : World) : Move → Option World
  | .run t => w.run t
  | .call n a =>
    match w.callers[n]? with
    | some [] => some (w.setFrames (.caller n) [.script .caller [a]])
    | _ => none
  | .release n =>
    if n < w.callers.length ∧ w.callers.all (·.isEmpty) ∧ w.gone = false then
      some (({ w with gone := true } : World).setFrames (.caller n)
        [.beginShutdown .caller .shutdown])
    else none
  | .reply s i r => w.reply s i r
  | .turn s t => w.turn s t

def steps (w : World) : List Move → Option World
  | [] => some w
  | m :: ms => (w.step m).bind fun w => w.steps ms

/-- What can be reached in any number of steps. -/
inductive Reaches : World → World → Prop
  | refl (w : World) : Reaches w w
  | step {w v u : World} (m : Move) (h : w.step m = some v) (rest : Reaches v u) : Reaches w u

end World

end RemoteNode.Session
