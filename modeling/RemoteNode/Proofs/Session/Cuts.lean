import RemoteNode.Proofs.Session.Threads

/-! A run seen from a moment on. The workers of before are forgotten and those that come later are
counted anew; what code the former have left runs on threads of callers. A frame does the same,
wherever the run is seen from. -/

namespace RemoteNode.Session

open Observer (Id Registry Notice Side)

/-- A moment of a run: the workers and the callers that there are, and the length of the log. -/
structure Cut where
  workers : Nat
  callers : Nat
  entries : Nat

namespace Cut
variable (c : Cut)

/-- Later workers are counted anew, and those of before come after the callers. -/
def thread : Thread → Thread
  | .caller n => .caller (if n < c.callers then n else n + c.workers)
  | .worker s => if s < c.workers then .caller (c.callers + s) else .worker (s - c.workers)

def callback (cb : Callback) : Callback := { cb with thread := c.thread cb.thread }

def job (j : Job) : Job := ⟨j.operation, c.callback j.callback⟩

def task : Task → Task
  | .refresh g => .refresh g
  | .job j p => .job (c.job j) p

/-- Nothing is left to do to a worker of before, and it interrupts the jobs it is given. -/
def frame : Frame → Frame
  | .takeStale cb => .takeStale (c.callback cb)
  | .start cb => .start (c.callback cb)
  | .signal s => if s < c.workers then .script .caller [] else .signal (s - c.workers)
  | .join s => if s < c.workers then .script .caller [] else .join (s - c.workers)
  | .dispatch j => .dispatch (c.job j)
  | .enqueue s j =>
    if s < c.workers then .conclude (c.job j) (.error .interrupted)
    else .enqueue (s - c.workers) (c.job j)
  | .conclude j r => .conclude (c.job j) r
  | .complete cb o => .complete (c.callback cb) o
  | f => f

def code (fs : List Frame) : List Frame := fs.map c.frame

def worker (x : Worker) : Worker := { x with
  callback := c.callback x.callback
  queue := x.queue.map c.job
  runnable := x.runnable.map fun a => (c.task a.1, a.2)
  waiting := x.waiting.map c.task
  frames := c.code x.frames }

def delivery (d : Delivery) : Delivery := { d with thread := c.thread d.thread }

/-- The handle of a worker of before is none. -/
def handle (s : Option Nat) : Option Nat :=
  s.bind fun s => if s < c.workers then none else some (s - c.workers)

def connection (a : Connection) : Connection :=
  { a with worker := c.handle a.worker, running := c.handle a.running }

/-- What is of a worker of before is left out. -/
def entry : Entry → Option Entry
  | .called cb => some (.called (c.callback cb))
  | .sent s task => if s < c.workers then none else some (.sent (s - c.workers) (c.task task))
  | .answered s task r =>
    if s < c.workers then none else some (.answered (s - c.workers) (c.task task) r)
  | .announced t n => some (.announced (c.thread t) n)
  | .completed cb o same => some (.completed (c.callback cb) o same)
  | .ended s => if s < c.workers then none else some (.ended (s - c.workers))
  | e => some e

/-- A world seen from the moment on. -/
def world (w : World) : World := { w with
  connection := c.connection w.connection
  nodeDelivery := w.nodeDelivery.map c.delivery
  connectivityDelivery := w.connectivityDelivery.map c.delivery
  workers := (w.workers.drop c.workers).map c.worker
  callers := w.callers.map c.code ++ (w.workers.take c.workers).map (c.code ·.frames)
  log := (w.log.take (w.log.length - c.entries)).filterMap c.entry }

def move : Move → Move
  | .run t => .run (c.thread t)
  | .reply s i r => .reply (s - c.workers) i r
  | .turn s k => .turn (s - c.workers) k
  | m => m

/-- A world and the code that has to run next, seen from the moment on. -/
def result (r : World × List Frame) : World × List Frame := (c.world r.1, c.code r.2)

/-- The world comes after the moment. -/
structure Fits (w : World) : Prop where
  workers : c.workers ≤ w.workers.length
  callers : w.callers.length = c.callers
  entries : c.entries ≤ w.log.length

variable {c} {w : World} {t u : Thread} {s i : Nat} {f : Frame} {fs : List Frame} {x : Worker}

theorem thread_inj : c.thread t = c.thread u ↔ t = u := by
  constructor
  · intro same
    cases t <;> cases u <;> simp only [thread] at same <;> split at same <;> try split at same
    all_goals simp only [Thread.caller.injEq, Thread.worker.injEq, reduceCtorEq] at same ⊢ <;> omega
  · rintro rfl
    rfl

theorem not_early (i : Nat) : ¬c.workers + i < c.workers := by omega

theorem thread_late (i : Nat) : c.thread (.worker (c.workers + i)) = .worker i := by
  rw [thread, if_neg (not_early i), Nat.add_sub_cancel_left]

theorem thread_early (h : s < c.workers) : c.thread (.worker s) = .caller (c.callers + s) := by
  rw [thread, if_pos h]

theorem workers_late (w : World) (i : Nat) :
    (c.world w).workers[i]? = (w.workers[c.workers + i]?).map c.worker := by
  simp [world, List.getElem?_drop]

theorem handle_late (i : Nat) : c.handle (some (c.workers + i)) = some i := by
  simp [handle]

theorem early_or_late (c : Cut) (s : Nat) : s < c.workers ∨ ∃ i, s = c.workers + i := by
  rcases Nat.lt_or_ge s c.workers with early | late
  · exact .inl early
  · exact .inr ⟨s - c.workers, by omega⟩

theorem code_append (fs gs : List Frame) : c.code (fs ++ gs) = c.code fs ++ c.code gs :=
  List.map_append

theorem frames_world (h : c.Fits w) (t : Thread) :
    (c.world w).frames (c.thread t) = c.code (w.frames t) := by
  have callers := h.callers
  have workers := h.workers
  cases t with
  | caller n =>
    rw [thread]
    split
    · simp [World.frames, world, List.getElem?_append, code, *]
    · have absent : w.callers[n]? = none := List.getElem?_eq_none (by omega)
      have beyond : (c.world w).callers[n + c.workers]? = none :=
        List.getElem?_eq_none (by simp [world]; omega)
      simp [World.frames, absent, beyond, code]
  | worker s =>
    obtain early | ⟨i, rfl⟩ := c.early_or_late s
    · have there : ¬c.callers + s < c.callers := by omega
      simp [thread_early early, World.frames, world, List.getElem?_append, callers, there, early,
        code]
      cases w.workers[s]? <;> rfl
    · rw [thread_late, World.frames, World.frames, workers_late]
      cases w.workers[c.workers + i]? <;> rfl

theorem world_updateWorker {g g' : Worker → Worker} (h : ∀ x, c.worker (g x) = g' (c.worker x))
    (w : World) (i : Nat) :
    c.world (w.updateWorker (c.workers + i) g) = (c.world w).updateWorker i g' := by
  have workers : ((w.workers.modify (c.workers + i) g).drop c.workers).map c.worker =
      ((w.workers.drop c.workers).map c.worker).modify i g' := by
    refine List.ext_getElem? fun j => ?_
    simp only [List.getElem?_map, List.getElem?_drop, List.getElem?_modify]
    by_cases same : i = j <;> cases w.workers[c.workers + j]? <;> simp [same, h]
  have callers : (w.workers.modify (c.workers + i) g).take c.workers =
      w.workers.take c.workers := by
    have short : (w.workers.take c.workers).length ≤ c.workers + i := by
      rw [List.length_take]
      omega
    rw [List.take_modify, List.modify_eq_self short]
  simp only [world, World.updateWorker, workers, callers]

theorem world_updateWorker_early {g : Worker → Worker} (h : ∀ x, (g x).frames = x.frames)
    (w : World) (early : s < c.workers) : c.world (w.updateWorker s g) = c.world w := by
  have callers : ((w.workers.modify s g).take c.workers).map (c.code ·.frames) =
      (w.workers.take c.workers).map (c.code ·.frames) := by
    refine List.ext_getElem? fun j => ?_
    rw [List.take_modify]
    simp only [List.getElem?_map, List.getElem?_modify]
    by_cases same : s = j <;> cases (w.workers.take c.workers)[j]? <;> simp [same, h]
  simp only [world, World.updateWorker, List.drop_modify_of_lt _ _ _ _ early, callers]

theorem world_stop_early (w : World) (early : s < c.workers) :
    c.world (w.updateWorker s fun x => { x with stopped := true }) = c.world w := by
  refine world_updateWorker_early (fun x => ?_) w early
  rfl

theorem world_stop_late (w : World) (i : Nat) :
    c.world (w.updateWorker (c.workers + i) fun x => { x with stopped := true }) =
      (c.world w).updateWorker i fun x => { x with stopped := true } := by
  refine world_updateWorker (fun x => ?_) w i
  rfl

theorem world_setFrames (h : c.Fits w) (t : Thread) (fs : List Frame) :
    c.world (w.setFrames t fs) = (c.world w).setFrames (c.thread t) (c.code fs) := by
  have callers := h.callers
  have workers := h.workers
  cases t with
  | caller n =>
    rw [thread]
    split
    · simp [World.setFrames, world, List.map_set, *]
    · have beyond : (c.world w).callers.length ≤ n + c.workers := by simp [world]; omega
      have before : w.callers.length ≤ n := by omega
      simp [World.setFrames, List.set_eq_of_length_le beyond, List.set_eq_of_length_le before]
  | worker s =>
    obtain early | ⟨i, rfl⟩ := c.early_or_late s
    · have old : ((w.workers.take c.workers).modify s fun x => { x with frames := fs }).map
          (c.code ·.frames) =
            ((w.workers.take c.workers).map (c.code ·.frames)).set s (c.code fs) := by
        refine List.ext_getElem? fun j => ?_
        simp only [List.getElem?_map, List.getElem?_modify, List.getElem?_set]
        by_cases same : s = j
        · subst same
          have within : s < min c.workers w.workers.length := by omega
          simp [within]
        · simp [same]
      have beyond : ¬c.callers + s < (w.callers.map c.code).length := by simp [callers]
      rw [thread_early early]
      simp only [World.setFrames, World.updateWorker, world, List.drop_modify_of_lt _ _ _ _ early,
        List.take_modify, old, List.set_append, if_neg beyond]
      simp [callers]
    · rw [thread_late]
      refine world_updateWorker (fun x => ?_) w i
      rfl

theorem world_record (entries : c.entries ≤ w.log.length) (e : Entry) :
    c.world (w.record e) = ((c.entry e).elim (c.world w) (c.world w).record) := by
  have log : (e :: w.log).take (w.log.length + 1 - c.entries) =
      e :: w.log.take (w.log.length - c.entries) := by
    rw [Nat.sub_add_comm entries, List.take_succ_cons]
  cases he : c.entry e with
  | none => simp [world, World.record, log, he]
  | some e' => simp [world, World.record, log, he]

namespace Fits
variable {v : World}

/-- What leaves the numbers as they are, or adds to them, still comes after the moment. -/
theorem of_le (h : c.Fits w) (workers : w.workers.length ≤ v.workers.length)
    (callers : v.callers.length = w.callers.length) (entries : w.log.length ≤ v.log.length) :
    c.Fits v :=
  ⟨Nat.le_trans h.workers workers, callers.trans h.callers, Nat.le_trans h.entries entries⟩

theorem updateWorker (h : c.Fits w) (s : Nat) (g : Worker → Worker) : c.Fits (w.updateWorker s g) :=
  h.of_le (by simp [World.updateWorker]) rfl (Nat.le_refl _)

end Fits

/-! ### Observers -/

section Observers
variable {side : Side} {n : Notice}

theorem registry_world (w : World) (side : Side) : (c.world w).registry side = w.registry side := by
  cases side <;> rfl

theorem delivery_world (w : World) (side : Side) :
    (c.world w).delivery side = (w.delivery side).map c.delivery := by
  cases side <;> rfl

theorem isAlive_world (w : World) : (c.world w).isAlive = w.isAlive := by
  funext o
  simp [World.isAlive, world, Function.comp_def, delivery]
  rfl

theorem world_setRegistry (w : World) (side : Side) (r : Registry) :
    c.world (w.setRegistry side r) = (c.world w).setRegistry side r := by
  cases side <;> rfl

theorem world_setDelivery (w : World) (side : Side) (d : Option Delivery) :
    c.world (w.setDelivery side d) = (c.world w).setDelivery side (d.map c.delivery) := by
  cases side <;> rfl

theorem log_setRegistry (w : World) (side : Side) (r : Registry) :
    (w.setRegistry side r).log = w.log := by
  cases side <;> rfl

theorem notify_world (h : c.Fits w) (t : Thread) (n : Notice) :
    (c.world w).notify (c.thread t) n = (w.notify t n).map c.result := by
  have recorded (r : Registry) : c.world ((w.setRegistry n.side r).record (.announced t n)) =
      ((c.world w).setRegistry n.side r).record (.announced (c.thread t) n) := by
    rw [world_record (by rw [log_setRegistry]; exact h.entries), world_setRegistry]
    rfl
  simp only [World.notify, delivery_world, registry_world, isAlive_world]
  cases w.delivery n.side with
  | some d => rfl
  | none =>
    simp only [Option.map_none]
    split
    · simp only [Option.map_some, result, recorded]
      rfl
    · simp only [Option.map_some, result, world_setDelivery, recorded]
      rfl

theorem deliver_world (h : c.Fits w) (n : Notice) (os : List Id) :
    (c.world w).deliver n os = c.result (w.deliver n os) := by
  cases os with
  | nil => simp [World.deliver, result, world_setDelivery, code]
  | cons o os =>
    simp only [World.deliver, result, world_record h.entries]
    rfl

end Observers

/-! ### Calls -/

section Calls

theorem script_world (h : c.Fits w) (t : Thread) (src : Source) (acts : List Act) :
    (c.world w).script (c.thread t) src acts = c.result (w.script t src acts) := by
  have drawn (label : String) (after : List Act) :
      (c.world w).draw (c.thread t) label after =
        (c.callback (w.draw t label after).1, c.world (w.draw t label after).2) := by
    simp only [World.draw]
    rw [world_record (w := { w with tickets := w.tickets + 1 }) h.entries]
    rfl
  cases acts with
  | nil => rfl
  | cons a acts =>
    cases gone : w.gone with
    | true =>
      have gone' : (c.world w).gone = true := gone
      cases a <;> simp [World.script, gone, gone', result, code, frame]
    | false =>
      have gone' : (c.world w).gone = false := gone
      cases a with
      | init label after | operate label o after =>
        simp only [World.script, gone, gone', World.act, drawn, Bool.false_eq_true, ↓reduceIte]
        rfl
      | shutdown | look | panic =>
        simp [World.script, gone, gone', World.act, result, code, frame] <;> rfl
      | register side o =>
        simp [World.script, gone, gone', World.act, result, code, frame, registry_world,
          isAlive_world, world_setRegistry]
      | unregister side o =>
        simp only [World.script, gone, gone', World.act, result, registry_world, world_setRegistry,
          Bool.false_eq_true, ↓reduceIte]
        cases ((w.registry side).remove o).1 <;> rfl

theorem complete_world (h : c.Fits w) (t : Thread) (cb : Callback) (o : Outcome) :
    (c.world w).runFrame (c.thread t) (.complete (c.callback cb) o) =
      (w.runFrame t (.complete cb o)).map c.result := by
  have same : (decide (c.thread t = (c.callback cb).thread)) = decide (t = cb.thread) :=
    decide_eq_decide.mpr thread_inj
  simp only [World.runFrame, same, Option.map_some, result, world_record h.entries]
  rfl

theorem awaitDelivery_world (w : World) (t : Thread) (side : Side) :
    (c.world w).runFrame (c.thread t) (.awaitDelivery side) =
      (w.runFrame t (.awaitDelivery side)).map c.result := by
  simp only [World.runFrame, delivery_world]
  cases w.delivery side with
  | none => rfl
  | some d =>
    have same : (c.delivery d).thread = c.thread t ↔ d.thread = t := thread_inj
    simp only [Option.map_some, same]
    split <;> rfl

end Calls

/-! ### The connection -/

section Connections

/-- The handles of a connection are of later workers. -/
def Late (c : Cut) (a : Connection) : Prop :=
  ∀ s, a.worker = some s ∨ a.running = some s → c.workers ≤ s

theorem handle_of_le (late : c.workers ≤ s) : c.handle (some s) = some (s - c.workers) := by
  rw [handle, Option.bind_some, if_neg (Nat.not_lt.mpr late)]

theorem handle_of_lt (early : s < c.workers) : c.handle (some s) = none := by
  rw [handle, Option.bind_some, if_pos early]

theorem world_push (h : c.Fits w) (a : Connection) (x : Worker) :
    c.world { w with connection := a, workers := w.workers ++ [x] } =
      { c.world w with
        connection := c.connection a, workers := (c.world w).workers ++ [c.worker x] } := by
  simp [world, List.drop_append_of_le_length h.workers, List.take_append_of_le_length h.workers]

theorem start_world (h : c.Fits w) (cb : Callback) :
    (c.world w).start (c.callback cb) = c.result (w.start cb) := by
  have length : (c.world w).workers.length = w.workers.length - c.workers := by simp [world]
  have state : (c.world w).connection.state = w.connection.state := rfl
  have stopping : (c.world w).connection.stopping = w.connection.stopping := rfl
  have worker : (c.world w).connection.worker = c.handle w.connection.worker := rfl
  simp only [World.start, Connection.start, state, stopping, worker, length]
  cases w.connection.stopping with
  | true => rfl
  | false =>
    by_cases free : w.connection.state = .notInitialized
    · have new : c.connection ⟨.initializing, false, some w.workers.length, some w.workers.length⟩ =
          ⟨.initializing, false, some (w.workers.length - c.workers),
            some (w.workers.length - c.workers)⟩ := by
        rw [connection, handle_of_le h.workers]
      simp only [free, Bool.false_eq_true, ↓reduceIte, result]
      cases held : w.connection.worker with
      | none => simp only [world_push h, new]; rfl
      | some s =>
        have fits := h.updateWorker s fun x => { x with stopped := true }
        obtain early | ⟨i, rfl⟩ := c.early_or_late s
        · simp only [world_push fits, new, handle_of_lt early, world_stop_early w early]
          rfl
        · simp only [world_push fits, new, handle_late, world_stop_late]
          rfl
    · simp only [free]
      rfl

theorem takeStale_world (late : c.Late w.connection) (t : Thread) (cb : Callback) :
    (c.world w).runFrame (c.thread t) (.takeStale (c.callback cb)) =
      (w.runFrame t (.takeStale cb)).map c.result := by
  have state : (c.world w).connection.state = w.connection.state := rfl
  have stopping : (c.world w).connection.stopping = w.connection.stopping := rfl
  have worker : (c.world w).connection.worker = c.handle w.connection.worker := rfl
  simp only [World.runFrame, Connection.takeStale, state, stopping, worker]
  by_cases free : w.connection.state = .notInitialized ∧ w.connection.stopping = false
  · simp only [free]
    cases held : w.connection.worker with
    | none => rfl
    | some s =>
      have le := late s (.inl held)
      simp [result, code, frame, Nat.not_lt.mpr le, world, connection, handle]
  · simp only [free]
    rfl

theorem server_world (late : c.Late w.connection) :
    (c.world w).connection.server = w.connection.server.map (· - c.workers) ∧
      ∀ s, w.connection.server = .ok s → c.workers ≤ s := by
  have state : (c.world w).connection.state = w.connection.state := rfl
  have stopping : (c.world w).connection.stopping = w.connection.stopping := rfl
  have worker : (c.world w).connection.worker = c.handle w.connection.worker := rfl
  simp only [Connection.server, state, stopping, worker]
  cases w.connection.stopping with
  | true => exact ⟨rfl, nofun⟩
  | false =>
    cases held : w.connection.worker with
    | none => cases w.connection.state <;> exact ⟨rfl, nofun⟩
    | some s =>
      have le := late s (.inl held)
      rw [handle_of_le le]
      cases w.connection.state with
      | initialized => exact ⟨rfl, fun r same => by cases same; exact le⟩
      | _ => exact ⟨rfl, nofun⟩

theorem dispatch_world (late : c.Late w.connection) (t : Thread) (j : Job) :
    (c.world w).runFrame (c.thread t) (.dispatch (c.job j)) =
      (w.runFrame t (.dispatch j)).map c.result := by
  obtain ⟨same, le⟩ := server_world late
  simp only [World.runFrame, same]
  cases served : w.connection.server with
  | error e => rfl
  | ok s => simp [Except.map, result, code, frame, Nat.not_lt.mpr (le s served)]

theorem beginShutdown_world (late : c.Late w.connection) (t : Thread) (src : Source) (a : Act) :
    (c.world w).beginShutdown (c.thread t) src a = (w.beginShutdown t src a).map c.result := by
  have stopping : (c.world w).connection.stopping = w.connection.stopping := rfl
  have worker : (c.world w).connection.worker = c.handle w.connection.worker := rfl
  have running : (c.world w).connection.running = c.handle w.connection.running := rfl
  simp only [World.beginShutdown, Connection.beginShutdown, stopping, worker, running]
  cases busy : w.connection.stopping with
  | true =>
    have same : ((c.handle w.connection.running).isSome = true ∧
        c.handle w.connection.running = (c.thread t).worker?) ↔
          w.connection.running.isSome = true ∧ w.connection.running = t.worker? := by
      cases hr : w.connection.running with
      | none => simp [handle]
      | some r =>
        have le := late r (.inr hr)
        rw [handle_of_le le]
        cases t with
        | caller n => simp [thread, Thread.worker?]
        | worker s =>
          obtain early | ⟨i, rfl⟩ := c.early_or_late s
          · rw [thread_early early]
            simp [Thread.worker?]
            omega
          · rw [thread_late]
            simp [Thread.worker?]
            omega
    simp only [same, ↓reduceIte]
    by_cases mine : w.connection.running.isSome = true ∧ w.connection.running = t.worker?
    · simp only [if_pos mine]
      rfl
    · simp only [if_neg mine]
      rfl
  | false =>
    cases held : w.connection.worker with
    | none => rfl
    | some s =>
      have le := late s (.inl held)
      simp [result, code, frame, Nat.not_lt.mpr le, world, connection, handle]

end Connections

/-! ### Workers -/

section Workers

theorem hasEnded_late (w : World) (i : Nat) :
    (c.world w).hasEnded i = w.hasEnded (c.workers + i) := by
  simp only [World.hasEnded, workers_late]
  cases w.workers[c.workers + i]? <;> rfl

theorem signal_world (w : World) (t : Thread) (s : Nat) :
    (c.world w).runFrame (c.thread t) (c.frame (.signal s)) =
      (w.runFrame t (.signal s)).map c.result := by
  obtain early | ⟨i, rfl⟩ := c.early_or_late s
  · simp [frame, early, World.runFrame, World.script, result, world_stop_early w early, code]
  · simp only [frame, if_neg (not_early i), Nat.add_sub_cancel_left, World.runFrame,
      Option.map_some, result, world_stop_late]
    rfl

theorem join_world (w : World) (t : Thread) (s : Nat)
    (free : s < c.workers → t = .worker s ∨ w.hasEnded s = true) :
    (c.world w).runFrame (c.thread t) (c.frame (.join s)) =
      (w.runFrame t (.join s)).map c.result := by
  obtain early | ⟨i, rfl⟩ := c.early_or_late s
  · simp [frame, early, World.runFrame, World.script, result, free early, code]
  · have here : c.thread t = .worker i ↔ t = .worker (c.workers + i) := by
      rw [← thread_late, thread_inj]
    simp only [frame, World.runFrame, hasEnded_late, here, Nat.add_sub_cancel_left,
      if_neg (not_early i)]
    split <;> rfl

theorem conclude_world (w : World) (j : Job) (r : Except Failure j.operation.Result) :
    (c.world w).conclude (c.job j) r = c.result (w.conclude j r) := by
  obtain ⟨o, cb⟩ := j
  cases o <;> cases r <;> rfl

/-- A job that comes to a worker of before is interrupted. -/
theorem enqueue_world (w : World) (t : Thread) (s : Nat) (j : Job)
    (closed : s < c.workers → ∀ x, w.workers[s]? = some x → x.isClosed = true) :
    (c.world w).runFrame (c.thread t) (c.frame (.enqueue s j)) =
      (w.runFrame t (.enqueue s j)).map c.result := by
  obtain early | ⟨i, rfl⟩ := c.early_or_late s
  · have late : w.enqueue s j = (w, [.complete j.callback (j.outcome (.error .interrupted))]) := by
      rw [World.enqueue]
      cases hx : w.workers[s]? with
      | none => rfl
      | some x => simp [closed early x hx]
    simp only [frame, if_pos early, World.runFrame, late]
    obtain ⟨o, cb⟩ := j
    cases o <;> rfl
  · have queued (x : Worker) : c.worker { x with queue := x.queue ++ [j] } =
        { c.worker x with queue := (c.worker x).queue ++ [c.job j] } := by
      simp [worker]
    simp only [frame, World.runFrame, World.enqueue, workers_late, Nat.add_sub_cancel_left,
      if_neg (not_early i)]
    cases w.workers[c.workers + i]? with
    | none => rfl
    | some x =>
      have same : (c.worker x).isClosed = x.isClosed := rfl
      simp only [Option.map_some, same]
      split
      · rfl
      · exact congrArg some (Prod.ext (world_updateWorker queued w i).symm rfl)

theorem makeReady_world (w : World) (i : Nat) (task : Task) (r : Ready) :
    (c.world w).makeReady i (c.task task) r = c.world (w.makeReady (c.workers + i) task r) := by
  refine (world_updateWorker (fun x => ?_) w i).symm
  simp [worker]

theorem remember_world (w : World) (i : Nat) (g : Memory → Memory) :
    (c.world w).remember i g = c.world (w.remember (c.workers + i) g) := by
  refine (world_updateWorker (fun x => ?_) w i).symm
  rfl

theorem advance_world (w : World) (i : Nat) (j : Job) (p : Procedure j.operation.Result) :
    (c.world w).advance i (c.job j) p = c.result (w.advance (c.workers + i) j p) := by
  cases p with
  | done r => rfl
  | ask command r next =>
    exact Prod.ext (makeReady_world w i (.job j (.ask command r next)) .send) rfl

theorem workerFrame_world (h : c.Fits w) (i : Nat) (x : Worker) (f : Frame) :
    (c.world w).workerFrame i (c.worker x) f = c.result (w.workerFrame (c.workers + i) x f) := by
  cases f with
  | connect =>
    have same : (c.world w).transport = w.transport := rfl
    simp only [World.workerFrame, same]
    split
    · exact Prod.ext (makeReady_world w i (.refresh .info) .send) rfl
    · rfl
  | noteFee | noteHeight => rfl
  | notePeers n =>
    have same : (c.world w).chain = w.chain := rfl
    simp only [World.workerFrame, same]
    cases (w.chain.withPeers n.peerCount).1 <;> rfl
  | noteKnown n =>
    have same : (c.world w).chain = w.chain := rfl
    simp only [World.workerFrame, same]
    cases (w.chain.raiseKnown (highest n)).1 <;> rfl
  | setConnected b =>
    have same : (c.worker x).memory = x.memory := rfl
    simp only [World.workerFrame, World.setConnected, same, remember_world]
    split <;> rfl
  | askHeader due =>
    have same : (c.worker x).memory = x.memory := rfl
    have chain : (c.world w).chain = w.chain := rfl
    simp only [World.workerFrame, same, chain]
    split
    · exact Prod.ext (makeReady_world w i (.refresh .header) .send) rfl
    · rfl
  | noteHeader b =>
    have same : (c.world w).chain = w.chain := rfl
    simp only [World.workerFrame, same]
    have noted := remember_world (c := c) { w with chain := (w.chain.withHeader b).2 } i
      fun m => { m with headerDue := false }
    refine Prod.ext noted ?_
    cases (w.chain.withHeader b).1 <;> rfl
  | askPool => exact Prod.ext (makeReady_world w i (.refresh (.pool _)) .send) rfl
  | notePool a =>
    have same : (c.worker x).memory = x.memory := rfl
    simp only [World.workerFrame, World.notePool, same, remember_world]
    split
    · refine Prod.ext rfl ?_
      change _ = c.code (_ ++ _)
      rw [code_append]
      split <;> rfl
    · rfl
  | refreshed r =>
    have phase : (c.worker x).phase = x.phase := rfl
    have slept : c.world (w.updateWorker (c.workers + i) fun x =>
        { x with refreshing := .asleep }) =
          (c.world w).updateWorker i fun x => { x with refreshing := .asleep } := by
      refine world_updateWorker (fun x => ?_) w i
      rfl
    simp only [World.workerFrame, World.refreshed, phase]
    cases x.phase <;> cases r <;> first | rfl | exact Prod.ext slept.symm rfl
  | markInitialized =>
    have state : (c.world w).connection.state = w.connection.state := rfl
    have stopping : (c.world w).connection.stopping = w.connection.stopping := rfl
    simp only [World.workerFrame, Connection.markInitialized, state, stopping]
    split <;> rfl
  | goLive =>
    refine Prod.ext (world_updateWorker (fun x => ?_) w i).symm rfl
    rfl
  | leave =>
    have left : c.world (w.updateWorker (c.workers + i) fun x =>
        { x with phase := .ended, refreshing := .over }) =
          (c.world w).updateWorker i fun x => { x with phase := .ended, refreshing := .over } := by
      refine world_updateWorker (fun x => ?_) w i
      rfl
    refine Prod.ext ?_ rfl
    have entry : c.entry (.ended (c.workers + i)) = some (.ended i) := by
      rw [Cut.entry, if_neg (not_early i), Nat.add_sub_cancel_left]
    simp only [World.workerFrame, result]
    rw [world_record (h.updateWorker _ _).entries, entry, left]
    rfl
  | _ => rfl

end Workers

end Cut

end RemoteNode.Session
