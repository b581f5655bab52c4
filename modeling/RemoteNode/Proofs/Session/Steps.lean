import Mathlib.Tactic.Common
import RemoteNode.Session.Step

/-! What a step of a world can do, said once: a frame that a thread runs, or a turn of an idle
worker, with the world after it written out. Later proofs take these cases apart and open no step
themselves. -/

namespace RemoteNode.Session

open Observer (Id Registry Notice Side)

/-- A frame of the course that a worker follows by itself. Every other frame belongs to a call, to
a notification or to the end of a job. -/
def Frame.isOwn : Frame → Bool
  | connect | noteFee _ | notePeers _ | noteKnown _ | noteHeight _ | setConnected _ | askHeader _
  | noteHeader _ | askPool | notePool _ | refreshed _ | markInitialized | markFailed | goLive
  | leave => true
  | _ => false

namespace World

theorem setRegistry_eq (w : World) (side : Side) (r : Registry) :
    w.setRegistry side r = { w with
      nodeObservers := if side = .node then r else w.nodeObservers
      connectivityObservers := if side = .node then w.connectivityObservers else r } := by
  cases side <;> rfl

theorem setDelivery_eq (w : World) (side : Side) (d : Option Delivery) :
    w.setDelivery side d = { w with
      nodeDelivery := if side = .node then d else w.nodeDelivery
      connectivityDelivery := if side = .node then w.connectivityDelivery else d } := by
  cases side <;> rfl

@[simp] theorem registry_record (w : World) (e : Entry) (side : Side) :
    (w.record e).registry side = w.registry side := by
  cases side <;> rfl

@[simp] theorem delivery_record (w : World) (e : Entry) (side : Side) :
    (w.record e).delivery side = w.delivery side := by
  cases side <;> rfl

theorem registry_setRegistry (w : World) (side other : Side) (r : Registry) :
    (w.setRegistry side r).registry other = if side = other then r else w.registry other := by
  cases side <;> cases other <;> rfl

@[simp] theorem delivery_setRegistry (w : World) (side other : Side) (r : Registry) :
    (w.setRegistry side r).delivery other = w.delivery other := by
  cases side <;> cases other <;> rfl

@[simp] theorem registry_setDelivery (w : World) (side other : Side) (d : Option Delivery) :
    (w.setDelivery side d).registry other = w.registry other := by
  cases side <;> cases other <;> rfl

theorem delivery_setDelivery (w : World) (side other : Side) (d : Option Delivery) :
    (w.setDelivery side d).delivery other = if side = other then d else w.delivery other := by
  cases side <;> cases other <;> rfl

@[simp] theorem registry_setFrames (w : World) (t : Thread) (fs : List Frame) (side : Side) :
    (w.setFrames t fs).registry side = w.registry side := by
  cases t <;> cases side <;> rfl

@[simp] theorem delivery_setFrames (w : World) (t : Thread) (fs : List Frame) (side : Side) :
    (w.setFrames t fs).delivery side = w.delivery side := by
  cases t <;> cases side <;> rfl

@[simp] theorem setFrames_caller (w : World) (n : Nat) (fs : List Frame) :
    w.setFrames (.caller n) fs = { w with callers := w.callers.set n fs } := rfl

@[simp] theorem setFrames_worker (w : World) (s : Nat) (fs : List Frame) :
    w.setFrames (.worker s) fs =
      { w with workers := w.workers.modify s fun x => { x with frames := fs } } := rfl

end World

theorem modify_eq_set {α : Type} {l : List α} {i : Nat} {x : α} (h : l[i]? = some x) (f : α → α) :
    l.modify i f = l.set i (f x) := by
  apply List.ext_getElem?
  intro j
  rw [List.getElem?_modify, List.getElem?_set]
  by_cases hij : i = j
  · subst hij
    obtain ⟨hi, rfl⟩ := List.getElem?_eq_some_iff.mp h
    simp [hi]
  · simp [hij]

theorem modify_set_self {α : Type} (l : List α) (i : Nat) (y : α) (f : α → α) :
    (l.set i y).modify i f = l.set i (f y) := by
  by_cases hi : i < l.length
  · rw [modify_eq_set (x := y) (by simp [hi]), List.set_set]
  · rw [List.set_eq_of_length_le (by omega), List.set_eq_of_length_le (by omega)]
    apply List.ext_getElem?
    intro j
    rw [List.getElem?_modify]
    by_cases hij : i = j
    · subst hij
      simp [List.getElem?_eq_none (show l.length ≤ i by omega)]
    · simp [hij]

theorem set_eq_self {α : Type} {l : List α} {i : Nat} {x : α} (h : l[i]? = some x) :
    l.set i x = l := by
  obtain ⟨hi, rfl⟩ := List.getElem?_eq_some_iff.mp h
  exact List.set_getElem_self hi

/-- What a worker does on its own course: what it is afterwards, how the connection and the chain
stand, and the code that has to run next. -/
inductive OwnStep (w : World) (x : Worker) :
    Frame → Worker → Connection → ChainView → List Frame → Prop
  | connect (h : w.transport = true) :
    OwnStep w x .connect { x with runnable := x.runnable ++ [(.refresh .info, .send)] }
      w.connection w.chain []
  | noTransport (h : w.transport = false) :
    OwnStep w x .connect x w.connection w.chain
      [.markFailed, .complete x.callback
        (.init (.error (.connectionFailed "no transport is available"))), .leave]
  | noteFee (i : Command.NodeInfo) :
    OwnStep w x (.noteFee i) x w.connection { w.chain with minimalFee := i.minFee } []
  | notePeers (i : Command.NodeInfo) :
    OwnStep w x (.notePeers i) x w.connection (w.chain.withPeers i.peerCount).2
      (if (w.chain.withPeers i.peerCount).1 then [.notify (.peers i.peerCount)] else [])
  | noteKnown (i : Command.NodeInfo) :
    OwnStep w x (.noteKnown i) x w.connection (w.chain.raiseKnown (highest i)).2
      (if (w.chain.raiseKnown (highest i)).1 then [.notify (.knownHeight (highest i))] else [])
  | noteHeight (i : Command.NodeInfo) :
    OwnStep w x (.noteHeight i) x w.connection (w.chain.raiseNode i.height).2
      [.setConnected (0 < i.peerCount), .askHeader (w.chain.raiseNode i.height).1]
  | stayConnected (b : Bool) (h : x.memory.connected = b) :
    OwnStep w x (.setConnected b) x w.connection w.chain []
  | setConnected (b : Bool) (h : x.memory.connected ≠ b) :
    OwnStep w x (.setConnected b) { x with memory := { x.memory with connected := b } }
      w.connection w.chain [.notify (.connected b)]
  | askHeader (due : Bool) (h : (due || x.memory.headerDue || w.chain.header.hash.isZero) = true) :
    OwnStep w x (.askHeader due)
      { x with runnable := x.runnable ++ [(.refresh .header, .send)] } w.connection w.chain []
  | skipHeader (due : Bool)
    (h : (due || x.memory.headerDue || w.chain.header.hash.isZero) = false) :
    OwnStep w x (.askHeader due) x w.connection w.chain [.askPool]
  | noteHeader (h : Chain.BlockHeader) :
    OwnStep w x (.noteHeader h) { x with memory := { x.memory with headerDue := false } }
      w.connection (w.chain.withHeader h).2
      (if (w.chain.withHeader h).1 then [.notify (.localHeight h.index), .notify (.header h)]
        else [])
  | askPool :
    OwnStep w x .askPool
      { x with
        runnable := x.runnable ++
          [(.refresh (.pool ⟨w.chain.header.hash, x.memory.known⟩), .send)] }
      w.connection w.chain []
  | notePool (c : Command.PoolChanges) (ids : PoolIds) (u : PoolUpdate)
    (actual : c.tailIsActual = true)
    (h : x.memory.known.change (c.added.map Chain.Transaction.id) c.deleted = (ids, u)) :
    OwnStep w x (.notePool c) { x with memory := { x.memory with known := ids } }
      w.connection w.chain
      ((if u.isEmpty then [] else [.notify (.pool u.added u.removed)]) ++ [.refreshed (.ok ())])
  | poolOutdated (c : Command.PoolChanges) (outdated : c.tailIsActual = false) :
    OwnStep w x (.notePool c) { x with memory := { x.memory with headerDue := true } }
      w.connection w.chain [.refreshed (.ok ())]
  | opened (h : x.phase = .opening) :
    OwnStep w x (.refreshed (.ok ())) x w.connection w.chain [.markInitialized]
  | lost (e : Failure) (h : x.phase = .opening) :
    OwnStep w x (.refreshed (.error e)) x w.connection w.chain
      [.setConnected false, .forgetChain, .markFailed, .complete x.callback (.init (.error e)),
        .leave]
  | refreshed (r : Except Failure Unit) (h : x.phase ≠ .opening) :
    OwnStep w x (.refreshed r) { x with refreshing := .asleep } w.connection w.chain []
  | markInitialized (calm : w.connection.stopping = false)
    (state : w.connection.state = .initializing) :
    OwnStep w x .markInitialized x { w.connection with state := .initialized } w.chain
      [.complete x.callback (.init (.ok ())), .goLive]
  | markRefused (h : ¬(w.connection.stopping = false ∧ w.connection.state = .initializing)) :
    OwnStep w x .markInitialized x w.connection w.chain
      [.setConnected false, .complete x.callback (.init (.error .interrupted)), .leave]
  | goLive :
    OwnStep w x .goLive { x with phase := .live, refreshing := .asleep } w.connection w.chain []

/-- What running a frame does: the world after it and the code that has to run next. -/
inductive FrameStep (w : World) (t : Thread) : Frame → World → List Frame → Prop
  | scriptEnd (src : Source) : FrameStep w t (.script src []) w []
  | panic (src : Source) (rest : List Act) : FrameStep w t (.script src (.panic :: rest)) w []
  | unreachable (src : Source) (a : Act) (rest : List Act) (gone : w.gone = true) :
    FrameStep w t (.script src (a :: rest)) w [.returning src a .gone, .script src rest]
  | init (src : Source) (label : String) (after rest : List Act) :
    FrameStep w t (.script src (.init label after :: rest)) (w.draw t label after).2
      [.takeStale (w.draw t label after).1, .returning src (.init label after) .nothing,
        .script src rest]
  | operate (src : Source) (label : String) (o : Operation) (after rest : List Act) :
    FrameStep w t (.script src (.operate label o after :: rest)) (w.draw t label after).2
      [.dispatch ⟨o, (w.draw t label after).1⟩, .returning src (.operate label o after) .nothing,
        .script src rest]
  | shutdown (src : Source) (rest : List Act) :
    FrameStep w t (.script src (.shutdown :: rest)) w
      [.beginShutdown src .shutdown, .script src rest]
  | register (src : Source) (side : Side) (o : Id) (rest : List Act) (b : Bool) (r : Registry)
    (reachable : w.gone = false) (h : (w.registry side).add w.isAlive o = (b, r)) :
    FrameStep w t (.script src (.register side o :: rest)) (w.setRegistry side r)
      [.returning src (.register side o) (.flag b), .script src rest]
  | unregister (src : Source) (side : Side) (o : Id) (rest : List Act) (r : Registry)
    (reachable : w.gone = false) (h : (w.registry side).remove o = (false, r)) :
    FrameStep w t (.script src (.unregister side o :: rest)) (w.setRegistry side r)
      [.returning src (.unregister side o) (.flag false), .script src rest]
  | unregisterAwait (src : Source) (side : Side) (o : Id) (rest : List Act) (r : Registry)
    (reachable : w.gone = false) (h : (w.registry side).remove o = (true, r)) :
    FrameStep w t (.script src (.unregister side o :: rest)) (w.setRegistry side r)
      [.awaitDelivery side, .returning src (.unregister side o) (.flag true), .script src rest]
  | look (src : Source) (rest : List Act) :
    FrameStep w t (.script src (.look :: rest)) w
      [.returning src .look (.overview w.overview), .script src rest]
  | returning (src : Source) (a : Act) (v : Returned) :
    FrameStep w t (.returning src a v) (w.record (.returned src a v)) []
  | takeStale (cb : Callback) (s : Nat) (state : w.connection.state = .notInitialized)
    (calm : w.connection.stopping = false) (held : w.connection.worker = some s) :
    FrameStep w t (.takeStale cb)
      { w with connection := .initial } [.signal s, .join s, .start cb]
  | takeNothing (cb : Callback) (state : w.connection.state = .notInitialized)
    (calm : w.connection.stopping = false) (held : w.connection.worker = none) :
    FrameStep w t (.takeStale cb) { w with connection := .initial } [.start cb]
  | leaveStale (cb : Callback)
    (busy : ¬(w.connection.state = .notInitialized ∧ w.connection.stopping = false)) :
    FrameStep w t (.takeStale cb) w [.start cb]
  | startStopping (cb : Callback) (stopping : w.connection.stopping = true) :
    FrameStep w t (.start cb) w [.complete cb (.init (.error .interrupted))]
  | startAgain (cb : Callback) (calm : w.connection.stopping = false)
    (state : w.connection.state ≠ .notInitialized) :
    FrameStep w t (.start cb) w [.complete cb (.init (.error .alreadyInitialized))]
  | start (cb : Callback) (calm : w.connection.stopping = false)
    (state : w.connection.state = .notInitialized) :
    FrameStep w t (.start cb)
      { w with
        connection := ⟨.initializing, false, some w.workers.length, some w.workers.length⟩
        workers := (w.connection.worker.elim w.workers fun s =>
          w.workers.modify s fun x => { x with stopped := true }) ++ [Worker.new cb] } []
  | signal (s : Nat) :
    FrameStep w t (.signal s)
      { w with workers := w.workers.modify s fun x => { x with stopped := true } } []
  | join (s : Nat) (free : t = .worker s ∨ w.hasEnded s = true) : FrameStep w t (.join s) w []
  | beginNothing (src : Source) (a : Act)
    (h : (w.connection.beginShutdown t.worker?).1 = .nothing) :
    FrameStep w t (.beginShutdown src a) w [.returning src a (.flag false)]
  | beginShutdown (src : Source) (a : Act) (s : Nat) (calm : w.connection.stopping = false)
    (held : w.connection.worker = some s) :
    FrameStep w t (.beginShutdown src a)
      { w with connection := { w.connection with worker := none, stopping := true } }
      [.signal s, .join s, .forgetChain, .forgetFeeAddress, .finishShutdown,
        .returning src a (.flag true)]
  | forgetChain : FrameStep w t .forgetChain { w with chain := .initial } []
  | forgetFeeAddress : FrameStep w t .forgetFeeAddress { w with feeAddress := "" } []
  | finishShutdown :
    FrameStep w t .finishShutdown { w with connection := w.connection.finishShutdown } []
  | dispatch (j : Job) (s : Nat) (h : w.connection.server = .ok s) :
    FrameStep w t (.dispatch j) w [.enqueue s j]
  | refuse (j : Job) (e : Failure) (h : w.connection.server = .error e) :
    FrameStep w t (.dispatch j) w [.complete j.callback (j.outcome (.error e))]
  | enqueue (s : Nat) (j : Job) (x : Worker) (hx : w.workers[s]? = some x)
    (isOpen : x.isClosed = false) :
    FrameStep w t (.enqueue s j)
      { w with workers := w.workers.modify s fun x => { x with queue := x.queue ++ [j] } } []
  | tooLate (s : Nat) (j : Job) (h : ∀ x, w.workers[s]? = some x → x.isClosed = true) :
    FrameStep w t (.enqueue s j) w [.complete j.callback (j.outcome (.error .interrupted))]
  | conclude (j : Job) (r : Except Failure j.operation.Result) (address : String)
    (h : (w.conclude j r).1 = { w with feeAddress := address }) :
    FrameStep w t (.conclude j r) { w with feeAddress := address }
      [.complete j.callback (j.outcome r)]
  | complete (cb : Callback) (o : Outcome) :
    FrameStep w t (.complete cb o) (w.record (.completed cb o (t = cb.thread)))
      [.script (.callback cb.ticket) cb.after]
  | notifyNobody (n : Notice) (r : Registry) (free : w.delivery n.side = none)
    (h : (w.registry n.side).live w.isAlive = r) (nobody : r.isEmpty = true) :
    FrameStep w t (.notify n) ((w.setRegistry n.side r).record (.announced t n)) []
  | notify (n : Notice) (r : Registry) (free : w.delivery n.side = none)
    (h : (w.registry n.side).live w.isAlive = r) (somebody : r.isEmpty = false) :
    FrameStep w t (.notify n)
      (((w.setRegistry n.side r).record (.announced t n)).setDelivery n.side (some ⟨t, r⟩))
      [.deliver n r]
  | delivered (n : Notice) : FrameStep w t (.deliver n []) (w.setDelivery n.side none) []
  | deliver (n : Notice) (o : Id) (rest : List Id) :
    FrameStep w t (.deliver n (o :: rest)) (w.record (.notified o n))
      [.script (.observer o) (w.reaction o n), .deliver n rest]
  | awaitDelivery (side : Side) (free : ∀ d, w.delivery side = some d → d.thread = t) :
    FrameStep w t (.awaitDelivery side) w []
  | markFailed :
    FrameStep w t .markFailed { w with connection := w.connection.markFailed } []
  | own (f : Frame) (s : Nat) (x x' : Worker) (c : Connection) (chain : ChainView)
    (fs : List Frame) (isHere : t = .worker s) (hx : w.workers[s]? = some x)
    (h : OwnStep w x f x' c chain fs) :
    FrameStep w t f { w with connection := c, chain := chain, workers := w.workers.set s x' } fs
  | leave (s : Nat) (x : Worker) (isHere : t = .worker s) (hx : w.workers[s]? = some x) :
    FrameStep w t .leave
      { w with
        workers := w.workers.set s { x with phase := .ended, refreshing := .over }
        log := .ended s :: w.log } []
  | stray (f : Frame) (own : f.isOwn = true)
    (h : ∀ s x, t = .worker s → w.workers[s]? ≠ some x) : FrameStep w t f w []

section Frames
variable {w v : World} {t : Thread} {s : Nat} {x x' : Worker} {f : Frame} {fs : List Frame}
  {c : Connection} {chain : ChainView}

/-- The worker is left with what its course says. -/
theorem OwnStep.workerFrame_eq (hx : w.workers[s]? = some x) (h : OwnStep w x f x' c chain fs) :
    w.workerFrame s x f =
      ({ w with connection := c, chain := chain, workers := w.workers.set s x' }, fs) := by
  have same := set_eq_self hx
  cases h with
  | connect h => simp [World.workerFrame, World.makeReady, World.updateWorker, modify_eq_set hx, h]
  | noTransport h =>
    rw [World.workerFrame, if_neg (by simp [h]), same]
  | noteFee | notePeers | noteKnown | noteHeight | goLive | askPool =>
    simp [World.workerFrame, World.makeReady, World.updateWorker, modify_eq_set hx, same]
  | stayConnected b h | setConnected b h =>
    simp [World.workerFrame, World.setConnected, World.remember, World.updateWorker,
      modify_eq_set hx, same, h]
  | askHeader due h | skipHeader due h =>
    simp only [World.workerFrame, h, World.makeReady, World.updateWorker, modify_eq_set hx, same]
    rfl
  | noteHeader h =>
    simp [World.workerFrame, World.remember, World.updateWorker, modify_eq_set hx]
  | notePool c ids u actual h =>
    simp [World.workerFrame, World.notePool, World.remember, World.updateWorker,
      modify_eq_set hx, actual, h]
  | poolOutdated c outdated =>
    simp [World.workerFrame, World.notePool, World.remember, World.updateWorker,
      modify_eq_set hx, outdated]
  | opened h | lost e h =>
    simp [World.workerFrame, World.refreshed, h, same]
  | refreshed r h =>
    cases hp : x.phase <;> simp_all [World.workerFrame, World.refreshed, World.updateWorker,
      modify_eq_set hx]
  | markInitialized calm state =>
    simp [World.workerFrame, Connection.markInitialized, calm, state, same]
  | markRefused h =>
    simp [World.workerFrame, Connection.markInitialized, h, same]

/-- The course of a worker says what to do at each of its frames. -/
theorem exists_ownStep (w : World) (x : Worker) (own : f.isOwn = true) (stays : f ≠ .leave)
    (decided : f ≠ .markFailed) : ∃ x' c chain fs, OwnStep w x f x' c chain fs := by
  cases f with
  | connect =>
    cases h : w.transport
    · exact ⟨_, _, _, _, .noTransport h⟩
    · exact ⟨_, _, _, _, .connect h⟩
  | noteFee i => exact ⟨_, _, _, _, .noteFee i⟩
  | notePeers i => exact ⟨_, _, _, _, .notePeers i⟩
  | noteKnown i => exact ⟨_, _, _, _, .noteKnown i⟩
  | noteHeight i => exact ⟨_, _, _, _, .noteHeight i⟩
  | setConnected b =>
    by_cases h : x.memory.connected = b
    · exact ⟨_, _, _, _, .stayConnected b h⟩
    · exact ⟨_, _, _, _, .setConnected b h⟩
  | askHeader due =>
    cases h : due || x.memory.headerDue || w.chain.header.hash.isZero
    · exact ⟨_, _, _, _, .skipHeader due h⟩
    · exact ⟨_, _, _, _, .askHeader due h⟩
  | noteHeader h => exact ⟨_, _, _, _, .noteHeader h⟩
  | askPool => exact ⟨_, _, _, _, .askPool⟩
  | notePool c =>
    cases h : c.tailIsActual
    · exact ⟨_, _, _, _, .poolOutdated c h⟩
    · exact ⟨_, _, _, _, .notePool c _ _ h rfl⟩
  | refreshed r =>
    by_cases h : x.phase = .opening
    · cases r with
      | ok u => exact ⟨_, _, _, _, .opened h⟩
      | error e => exact ⟨_, _, _, _, .lost e h⟩
    · exact ⟨_, _, _, _, .refreshed r h⟩
  | markInitialized =>
    by_cases h : w.connection.stopping = false ∧ w.connection.state = .initializing
    · exact ⟨_, _, _, _, .markInitialized h.1 h.2⟩
    · exact ⟨_, _, _, _, .markRefused h⟩
  | goLive => exact ⟨_, _, _, _, .goLive⟩
  | markFailed => exact absurd rfl decided
  | leave => exact absurd rfl stays
  | _ => simp [Frame.isOwn] at own

/-- A frame of a worker's course does nothing on the thread of a caller. -/
theorem runFrame_caller (w : World) (n : Nat) (own : f.isOwn = true) (decided : f ≠ .markFailed) :
    w.runFrame (.caller n) f = some (w, []) := by
  cases f <;> first | rfl | exact absurd rfl decided | exact absurd own Bool.false_ne_true

theorem runFrame_worker (hx : w.workers[s]? = some x) (own : f.isOwn = true)
    (decided : f ≠ .markFailed) :
    w.runFrame (.worker s) f = some (w.workerFrame s x f) := by
  cases f <;> first
    | exact absurd rfl decided
    | exact absurd own Bool.false_ne_true
    | simp [World.runFrame, hx]

theorem runFrame_nobody (hx : w.workers[s]? = none) (own : f.isOwn = true)
    (decided : f ≠ .markFailed) : w.runFrame (.worker s) f = some (w, []) := by
  cases f <;> first
    | exact absurd rfl decided
    | exact absurd own Bool.false_ne_true
    | simp [World.runFrame, hx]

theorem frameStep_of_own (own : f.isOwn = true) (decided : f ≠ .markFailed)
    (h : w.runFrame t f = some (v, fs)) : FrameStep w t f v fs := by
  cases t with
  | caller n =>
    rw [runFrame_caller w n own decided] at h
    cases h
    exact .stray f own (by simp)
  | worker s =>
    cases hx : w.workers[s]? with
    | none =>
      rw [runFrame_nobody hx own decided] at h
      cases h
      exact .stray f own (by rintro _ x ⟨⟩ he; simp [hx] at he)
    | some x =>
      rw [runFrame_worker hx own decided, Option.some.injEq] at h
      by_cases leaves : f = .leave
      · subst leaves
        have left : w.workerFrame s x .leave = ({ w with
            workers := w.workers.set s { x with phase := .ended, refreshing := .over }
            log := .ended s :: w.log }, []) := by
          simp [World.workerFrame, World.updateWorker, World.record, modify_eq_set hx]
        rw [left] at h
        cases h
        exact .leave s x rfl hx
      · obtain ⟨x', c, chain, gs, step⟩ := exists_ownStep w x own leaves decided
        rw [step.workerFrame_eq hx] at h
        cases h
        exact .own f s x x' c chain fs rfl hx step

theorem frameStep_of_script {src : Source} {acts : List Act}
    (h : w.runFrame t (.script src acts) = some (v, fs)) :
    FrameStep w t (.script src acts) v fs := by
  replace h : w.script t src acts = (v, fs) := Option.some.inj h
  cases acts with
  | nil =>
    cases h
    exact .scriptEnd src
  | cons a rest =>
    by_cases gone : w.gone = true
    · cases a with
      | panic =>
        cases h
        exact .panic src rest
      | _ =>
        simp only [World.script, gone, ↓reduceIte] at h
        cases h
        exact .unreachable src _ rest gone
    · have reachable : w.gone = false := by simpa using gone
      cases a with
      | panic =>
        cases h
        exact .panic src rest
      | unregister side o =>
        simp [World.script, gone, World.act] at h
        obtain ⟨rfl, rfl⟩ := h
        cases removed : ((w.registry side).remove o).1
        · exact .unregister src side o rest _ reachable (Prod.ext removed rfl)
        · exact .unregisterAwait src side o rest _ reachable (Prod.ext removed rfl)
      | init label after =>
        simp [World.script, gone, World.act] at h
        obtain ⟨rfl, rfl⟩ := h
        exact .init src label after rest
      | operate label o after =>
        simp [World.script, gone, World.act] at h
        obtain ⟨rfl, rfl⟩ := h
        exact .operate src label o after rest
      | shutdown =>
        simp [World.script, gone, World.act] at h
        obtain ⟨rfl, rfl⟩ := h
        exact .shutdown src rest
      | register side o =>
        simp [World.script, gone, World.act] at h
        obtain ⟨rfl, rfl⟩ := h
        exact .register src side o rest _ _ reachable rfl
      | look =>
        simp [World.script, gone, World.act] at h
        obtain ⟨rfl, rfl⟩ := h
        exact .look src rest

theorem frameStep_of_start {cb : Callback} (h : w.runFrame t (.start cb) = some (v, fs)) :
    FrameStep w t (.start cb) v fs := by
  replace h : w.start cb = (v, fs) := Option.some.inj h
  cases calm : w.connection.stopping with
  | true =>
    simp [World.start, Connection.start, calm] at h
    obtain ⟨rfl, rfl⟩ := h
    exact .startStopping cb calm
  | false =>
    by_cases state : w.connection.state = .notInitialized
    · simp [World.start, Connection.start, calm, state] at h
      obtain ⟨rfl, rfl⟩ := h
      have step := FrameStep.start (t := t) cb calm state
      cases held : w.connection.worker <;> simpa [held, World.updateWorker] using step
    · simp [World.start, Connection.start, calm, state] at h
      obtain ⟨rfl, rfl⟩ := h
      exact .startAgain cb calm state

theorem frameStep_of_beginShutdown {src : Source} {a : Act}
    (h : w.runFrame t (.beginShutdown src a) = some (v, fs)) :
    FrameStep w t (.beginShutdown src a) v fs := by
  change w.beginShutdown t src a = some (v, fs) at h
  unfold World.beginShutdown at h
  split at h
  · cases h
  · rename_i hb
    cases h
    exact .beginNothing src a (by rw [hb])
  · rename_i s c hb
    cases h
    cases calm : w.connection.stopping with
    | true => simp [Connection.beginShutdown, calm] at hb; split at hb <;> simp at hb
    | false =>
      cases held : w.connection.worker with
      | none => simp [Connection.beginShutdown, calm, held] at hb
      | some r =>
        simp [Connection.beginShutdown, calm, held] at hb
        obtain ⟨rfl, rfl⟩ := hb
        exact .beginShutdown src a r calm held

theorem frameStep_of_notify {n : Notice} (h : w.runFrame t (.notify n) = some (v, fs)) :
    FrameStep w t (.notify n) v fs := by
  change w.notify t n = some (v, fs) at h
  unfold World.notify at h
  cases free : w.delivery n.side with
  | some d => simp [free] at h
  | none =>
    simp only [free] at h
    split at h <;> cases h
    · exact .notifyNobody n _ free rfl ‹_›
    · exact .notify n _ free rfl (Bool.eq_false_iff.mpr ‹_›)

/-- A frame that runs does what `FrameStep` says. -/
theorem frameStep_of_runFrame (h : w.runFrame t f = some (v, fs)) : FrameStep w t f v fs := by
  by_cases own : f.isOwn = true
  · by_cases decided : f = .markFailed
    · subst decided
      cases h
      exact .markFailed
    · exact frameStep_of_own own decided h
  · cases f with
    | script src acts => exact frameStep_of_script h
    | start cb => exact frameStep_of_start h
    | beginShutdown src a => exact frameStep_of_beginShutdown h
    | notify n => exact frameStep_of_notify h
    | returning src a v =>
      cases h
      exact .returning src a v
    | takeStale cb =>
      by_cases idle : w.connection.state = .notInitialized ∧ w.connection.stopping = false
      · cases held : w.connection.worker with
        | none =>
          have taken : w.connection.takeStale = (none, .initial) := by
            obtain ⟨state, calm⟩ := idle
            simp [Connection.takeStale, state, calm, held, Connection.initial]
          simp only [World.runFrame, taken] at h
          cases h
          exact .takeNothing cb idle.1 idle.2 held
        | some s =>
          have taken : w.connection.takeStale = (some s, .initial) := by
            obtain ⟨state, calm⟩ := idle
            simp [Connection.takeStale, state, calm, held, Connection.initial]
          simp only [World.runFrame, taken] at h
          cases h
          exact .takeStale cb s idle.1 idle.2 held
      · simp [World.runFrame, Connection.takeStale, idle] at h
        obtain ⟨rfl, rfl⟩ := h
        exact .leaveStale cb idle
    | signal s =>
      cases h
      exact .signal s
    | join s =>
      simp only [World.runFrame] at h
      split at h <;> cases h
      exact .join s ‹_›
    | forgetChain =>
      cases h
      exact .forgetChain
    | forgetFeeAddress =>
      cases h
      exact .forgetFeeAddress
    | finishShutdown =>
      cases h
      exact .finishShutdown
    | dispatch j =>
      simp only [World.runFrame] at h
      split at h <;> cases h
      · exact .dispatch j _ ‹_›
      · exact .refuse j _ ‹_›
    | enqueue s j =>
      simp only [World.runFrame, Option.some.injEq, World.enqueue] at h
      cases hx : w.workers[s]? with
      | none =>
        simp [hx] at h
        obtain ⟨rfl, rfl⟩ := h
        exact .tooLate s j (by simp [hx])
      | some x =>
        cases hc : x.isClosed <;> simp [hx, hc] at h <;> obtain ⟨rfl, rfl⟩ := h
        · exact .enqueue s j x hx hc
        · exact .tooLate s j (by simp [hx, hc])
    | conclude j r =>
      simp only [World.runFrame, Option.some.injEq] at h
      obtain ⟨address, ha⟩ : ∃ a, (w.conclude j r).1 = { w with feeAddress := a } := by
        rcases j with ⟨o, cb⟩
        cases o <;> cases r <;> exact ⟨_, rfl⟩
      have pushed : (w.conclude j r).2 = [.complete j.callback (j.outcome r)] := rfl
      rw [← Prod.eta (w.conclude j r), ha, pushed] at h
      cases h
      exact .conclude j r address ha
    | complete cb o =>
      cases h
      exact .complete cb o
    | deliver n rest =>
      cases rest with
      | nil =>
        cases h
        exact .delivered n
      | cons o rest =>
        cases h
        exact .deliver n o rest
    | awaitDelivery side =>
      simp only [World.runFrame] at h
      cases hd : w.delivery side with
      | none =>
        simp [hd] at h
        obtain ⟨rfl, rfl⟩ := h
        exact .awaitDelivery side (by simp [hd])
      | some d =>
        simp [hd] at h
        obtain ⟨here, rfl, rfl⟩ := h
        exact .awaitDelivery side (by simp [hd, here])
    | _ => simp [Frame.isOwn] at own

end Frames

end RemoteNode.Session
