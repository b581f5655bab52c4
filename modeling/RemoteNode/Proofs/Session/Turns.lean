import RemoteNode.Proofs.Session.Steps

/-! What an idle worker can do in a turn, and with it every step of a world. A turn concerns its
worker alone: it puts another worker in its place and writes to the log. -/

namespace RemoteNode.Session

namespace Worker

/-- The worker once a task of it was ended because it has to stop. -/
def cancelled (x : Worker) : Task → Worker
  | .refresh _ =>
    if x.phase = .opening then { x with frames := [.refreshed (.error .interrupted)] }
    else { x with refreshing := .over, frames := [.setConnected false] }
  | .job j _ => { x with frames := [.complete j.callback (j.outcome (.error .interrupted))] }

/-- The worker once a job went on to its next request or to its end. -/
def advanced (x : Worker) (j : Job) : Procedure j.operation.Result → Worker
  | .done r => { x with frames := [.conclude j r] }
  | .ask c r next => { x with runnable := x.runnable ++ [(.job j (.ask c r next), .send)] }

/-- The worker once a task went on with the reply to its request. -/
def answered (x : Worker) (limit : Exchange.Timeout) : Task → Reply → Worker
  | .refresh g, .arrival a => { x with frames := World.refreshAnswered g limit a }
  | .refresh _, .panic m => { x with frames := [.refreshed (.error (.internal m))] }
  | .job j (.ask c _ next), .arrival a =>
    match answer c limit a with
    | .ok content => x.advanced j (next content)
    | .error e => { x with frames := [.conclude j (.error (.ofExchange e))] }
  | .job j (.done r), .arrival _ => { x with frames := [.conclude j r] }
  | .job j _, .panic m => { x with frames := [.conclude j (.error (.internal m))] }

end Worker

/-- What an idle worker can do: what it is afterwards and what is written to the log. -/
inductive TurnStep (limit : Exchange.Timeout) (s : Nat) (x : Worker) :
    Turn → Worker → List Entry → Prop
  | pollStopped (task : Task) (r : Ready) (rest : List (Task × Ready)) (stopped : x.stopped = true)
    (h : x.runnable = (task, r) :: rest) :
    TurnStep limit s x .poll (({ x with runnable := rest } : Worker).cancelled task) []
  | send (task : Task) (rest : List (Task × Ready)) (going : x.stopped = false)
    (h : x.runnable = (task, .send) :: rest) :
    TurnStep limit s x .poll { x with runnable := rest, waiting := x.waiting ++ [task] }
      [.sent s task]
  | beginJob (j : Job) (p : Procedure j.operation.Result) (rest : List (Task × Ready))
    (going : x.stopped = false) (h : x.runnable = (.job j p, .fresh) :: rest) :
    TurnStep limit s x .poll (({ x with runnable := rest } : Worker).advanced j p) []
  | beginRefresh (g : Stage) (rest : List (Task × Ready)) (going : x.stopped = false)
    (h : x.runnable = (.refresh g, .fresh) :: rest) :
    TurnStep limit s x .poll { x with runnable := rest ++ [(.refresh g, .send)] } []
  | answered (task : Task) (r : Reply) (rest : List (Task × Ready)) (going : x.stopped = false)
    (h : x.runnable = (task, .answered r) :: rest) :
    TurnStep limit s x .poll (({ x with runnable := rest } : Worker).answered limit task r)
      [.answered s task r]
  | interrupt (i : Nat) (task : Task) (stopped : x.stopped = true)
    (h : x.waiting[i]? = some task) :
    TurnStep limit s x (.interrupt i)
      (({ x with waiting := x.waiting.eraseIdx i } : Worker).cancelled task) []
  | wakeStopped (asleep : x.refreshing = .asleep) (stopped : x.stopped = true) :
    TurnStep limit s x .wake { x with refreshing := .over, frames := [.setConnected false] } []
  | wake (asleep : x.refreshing = .asleep) (going : x.stopped = false) :
    TurnStep limit s x .wake
      { x with refreshing := .busy, runnable := x.runnable ++ [(.refresh .info, .send)] } []
  | take (j : Job) (rest : List Job) (live : x.phase = .live) (h : x.queue = j :: rest) :
    TurnStep limit s x .take
      { x with
        queue := rest, runnable := x.runnable ++ [(.job j j.operation.procedure, .fresh)] } []
  | close (live : x.phase = .live) (stopped : x.stopped = true) :
    TurnStep limit s x .close { x with phase := .closed } []
  | reject (j : Job) (rest : List Job) (closed : x.phase = .closed) (h : x.queue = j :: rest) :
    TurnStep limit s x .reject
      { x with
        queue := rest, frames := [.complete j.callback (j.outcome (.error .interrupted))] } []
  | finish (closed : x.phase = .closed) (queue : x.queue = []) (runnable : x.runnable = [])
    (waiting : x.waiting = []) (spent : x.refreshing = .over) :
    TurnStep limit s x .finish { x with frames := [.leave] } []

section Turns
variable {w v : World} {s : Nat} {x y : Worker}

/-- The world with a worker in the place of another. -/
def World.withWorker (w : World) (s : Nat) (y : Worker) : World :=
  { w with workers := w.workers.set s y }

theorem updateWorker_eq (hx : w.workers[s]? = some x) (f : Worker → Worker) :
    w.updateWorker s f = w.withWorker s (f x) := by
  rw [World.updateWorker, modify_eq_set hx, World.withWorker]

theorem updateWorker_withWorker (f : Worker → Worker) :
    (w.withWorker s y).updateWorker s f = w.withWorker s (f y) := by
  simp only [World.updateWorker, World.withWorker, modify_set_self]

theorem setFrames_withWorker (fs : List Frame) :
    (w.withWorker s y).setFrames (.worker s) fs = w.withWorker s { y with frames := fs } :=
  updateWorker_withWorker _

theorem setFrames_record (e : Entry) (t : Thread) (fs : List Frame) :
    (w.record e).setFrames t fs = (w.setFrames t fs).record e := by
  cases t <;> rfl

theorem cancel_withWorker (task : Task) (phase : x.phase = y.phase) :
    (((w.withWorker s y).cancel s x task).1).setFrames (.worker s)
      ((w.withWorker s y).cancel s x task).2 = w.withWorker s (y.cancelled task) := by
  cases task with
  | refresh g =>
    rw [World.cancel, phase]
    by_cases h : y.phase = .opening
    · simp only [h, ↓reduceIte, setFrames_withWorker, Worker.cancelled]
    · simp only [h, ↓reduceIte, updateWorker_withWorker, setFrames_withWorker,
        Worker.cancelled]
  | job j p => simp only [World.cancel, setFrames_withWorker, Worker.cancelled]

theorem advance_withWorker (j : Job) (p : Procedure j.operation.Result) (idle : y.frames = []) :
    (((w.withWorker s y).advance s j p).1).setFrames (.worker s)
      ((w.withWorker s y).advance s j p).2 = w.withWorker s (y.advanced j p) := by
  cases p with
  | done r => simp only [World.advance, setFrames_withWorker, Worker.advanced]
  | ask c r next =>
    simp only [World.advance, World.makeReady, updateWorker_withWorker, setFrames_withWorker,
      Worker.advanced, idle]

theorem continueWith_withWorker (task : Task) (r : Reply) (idle : y.frames = []) :
    (((w.withWorker s y).continueWith s task r).1).setFrames (.worker s)
      ((w.withWorker s y).continueWith s task r).2 =
        w.withWorker s (y.answered w.timeout task r) := by
  have limit : (w.withWorker s y).timeout = w.timeout := rfl
  cases r with
  | panic m =>
    cases task <;> simp only [World.continueWith, setFrames_withWorker, Worker.answered]
  | arrival a =>
    cases task with
    | refresh g => simp only [World.continueWith, setFrames_withWorker, Worker.answered, limit]
    | job j p =>
      cases p with
      | done r => simp only [World.continueWith, setFrames_withWorker, Worker.answered]
      | ask c q next =>
        simp only [World.continueWith, Worker.answered, limit]
        cases answer c w.timeout a with
        | ok content => exact advance_withWorker j (next content) idle
        | error e => exact setFrames_withWorker _

theorem turnStep_of_poll (hx : w.workers[s]? = some x) (idle : x.frames = [])
    (h : w.poll s x = some v) :
    ∃ x' es, TurnStep w.timeout s x .poll x' es ∧
      v = { w.withWorker s x' with log := es ++ w.log } := by
  simp only [World.poll] at h
  split at h
  · cases h
  · rename_i task r rest hr
    simp only [updateWorker_eq hx, Option.some.injEq] at h
    cases hs : x.stopped with
    | true =>
      rw [if_pos hs, cancel_withWorker (x := x) (y := { x with runnable := rest }) task rfl] at h
      exact ⟨_, _, .pollStopped task r rest hs hr, h.symm⟩
    | false =>
      rw [if_neg (by simp [hs])] at h
      cases r with
      | send =>
        simp only [World.resume, updateWorker_withWorker, setFrames_record,
          setFrames_withWorker] at h
        refine ⟨_, _, .send task rest hs hr, ?_⟩
        rw [← h]
        simp [World.record, World.withWorker, idle]
      | fresh =>
        cases task with
        | refresh g =>
          simp only [World.resume, World.makeReady, updateWorker_withWorker,
            setFrames_withWorker] at h
          refine ⟨_, _, .beginRefresh g rest hs hr, ?_⟩
          rw [← h]
          simp [World.withWorker, idle]
        | job j p =>
          have going := advance_withWorker (w := w) (s := s) (y := { x with runnable := rest }) j p
            idle
          simp only [World.resume] at h
          rw [going] at h
          exact ⟨_, _, .beginJob j p rest hs hr, h.symm⟩
      | answered r =>
        have going := continueWith_withWorker (w := w.record (.answered s task r)) (s := s)
          (y := { x with runnable := rest }) task r idle
        simp only [World.resume] at h
        refine ⟨_, _, .answered task r rest hs hr, ?_⟩
        rw [← h]
        exact going

theorem turnStep_of_interrupt {i : Nat} (hx : w.workers[s]? = some x)
    (h : w.interrupt s x i = some v) :
    ∃ x' es, TurnStep w.timeout s x (.interrupt i) x' es ∧
      v = { w.withWorker s x' with log := es ++ w.log } := by
  simp only [World.interrupt] at h
  split at h
  · rename_i task hs ht
    simp only [updateWorker_eq hx, Option.some.injEq] at h
    rw [cancel_withWorker (x := x) (y := { x with waiting := x.waiting.eraseIdx i }) task rfl] at h
    exact ⟨_, _, .interrupt i task hs ht, h.symm⟩
  · cases h

theorem turnStep_of_wake (hx : w.workers[s]? = some x) (h : w.wake s x = some v) :
    ∃ x' es, TurnStep w.timeout s x .wake x' es ∧
      v = { w.withWorker s x' with log := es ++ w.log } := by
  simp only [World.wake, updateWorker_eq hx] at h
  split at h
  · cases h
  · rename_i asleep
    have asleep : x.refreshing = .asleep := by simpa using asleep
    cases hs : x.stopped with
    | true =>
      rw [if_pos hs, setFrames_withWorker, Option.some.injEq] at h
      exact ⟨_, _, .wakeStopped asleep hs, h.symm⟩
    | false =>
      rw [if_neg (by simp [hs]), World.makeReady, updateWorker_withWorker,
        Option.some.injEq] at h
      exact ⟨_, _, .wake asleep hs, h.symm⟩

/-- A turn that a worker takes does what `TurnStep` says. -/
theorem turnStep_of_turn {k : Turn} (h : w.turn s k = some v) :
    ∃ x x' es, w.workers[s]? = some x ∧ x.isIdle = true ∧ TurnStep w.timeout s x k x' es ∧
      v = { w.withWorker s x' with log := es ++ w.log } := by
  simp only [World.turn] at h
  cases hx : w.workers[s]? with
  | none => simp [hx] at h
  | some x =>
    simp only [hx] at h
    cases hi : x.isIdle with
    | false => simp [hi] at h
    | true =>
      simp only [hi, ↓reduceIte] at h
      have idle : x.frames = [] := by
        simp only [Worker.isIdle, Bool.and_eq_true, List.isEmpty_iff] at hi
        exact hi.1
      suffices hs : ∃ x' es, TurnStep w.timeout s x k x' es ∧
          v = { w.withWorker s x' with log := es ++ w.log } by
        obtain ⟨x', es, step, rfl⟩ := hs
        exact ⟨x, x', es, rfl, hi, step, rfl⟩
      cases k with
      | poll => exact turnStep_of_poll hx idle h
      | interrupt i => exact turnStep_of_interrupt hx h
      | wake => exact turnStep_of_wake hx h
      | take =>
        simp only [World.take, updateWorker_eq hx, World.makeReady, updateWorker_withWorker] at h
        split at h <;> cases h
        exact ⟨_, _, .take _ _ ‹_› ‹_›, rfl⟩
      | close =>
        simp only [World.close, updateWorker_eq hx] at h
        split at h <;> cases h
        rename_i hc
        simp only [Bool.and_eq_true, decide_eq_true_eq] at hc
        exact ⟨_, _, .close hc.1 hc.2, rfl⟩
      | reject =>
        simp only [World.reject, updateWorker_eq hx, setFrames_withWorker] at h
        split at h <;> cases h
        exact ⟨_, _, .reject _ _ ‹_› ‹_›, rfl⟩
      | finish =>
        simp only [World.finish] at h
        split at h <;> cases h
        rename_i hc
        simp only [Bool.and_eq_true, decide_eq_true_eq, List.isEmpty_iff] at hc
        obtain ⟨⟨⟨⟨closed, queue⟩, runnable⟩, waiting⟩, spent⟩ := hc
        refine ⟨_, _, .finish closed queue runnable waiting spent, ?_⟩
        exact updateWorker_eq hx _

end Turns

/-- What a step of a world can do. -/
inductive WorldStep (w : World) : Move → World → Prop
  | caller (n : Nat) (f : Frame) (rest fs : List Frame) (u : World)
    (h : w.callers[n]? = some (f :: rest)) (step : FrameStep w (.caller n) f u fs) :
    WorldStep w (.run (.caller n)) { u with callers := u.callers.set n (fs ++ rest) }
  | worker (s : Nat) (x : Worker) (f : Frame) (rest fs : List Frame) (u : World)
    (hx : w.workers[s]? = some x) (h : x.frames = f :: rest)
    (step : FrameStep w (.worker s) f u fs) :
    WorldStep w (.run (.worker s))
      { u with workers := u.workers.modify s fun x => { x with frames := fs ++ rest } }
  | call (n : Nat) (a : Act) (h : w.callers[n]? = some []) :
    WorldStep w (.call n a) { w with callers := w.callers.set n [.script .caller [a]] }
  | release (n : Nat) (hn : n < w.callers.length) (idle : ∀ fs ∈ w.callers, fs = [])
    (held : w.gone = false) :
    WorldStep w (.release n)
      { w with gone := true, callers := w.callers.set n [.beginShutdown .caller .shutdown] }
  | reply (s i : Nat) (r : Reply) (x : Worker) (task : Task) (hx : w.workers[s]? = some x)
    (h : x.waiting[i]? = some task) (fits : r.fits task = true) :
    WorldStep w (.reply s i r) (w.withWorker s
      { x with
        waiting := x.waiting.eraseIdx i
        runnable := x.runnable ++ [(task, .answered r)] })
  | turn (s : Nat) (k : Turn) (x x' : Worker) (es : List Entry) (hx : w.workers[s]? = some x)
    (idle : x.frames = []) (stays : x.phase ≠ .ended) (step : TurnStep w.timeout s x k x' es) :
    WorldStep w (.turn s k) { w.withWorker s x' with log := es ++ w.log }

/-- A step that is taken does what `WorldStep` says. -/
theorem worldStep_of_step {w v : World} {m : Move} (h : w.step m = some v) : WorldStep w m v := by
  cases m with
  | run t =>
    simp only [World.step, World.run] at h
    split at h
    · cases h
    · rename_i f rest hf
      obtain ⟨⟨u, fs⟩, ran, rfl⟩ := Option.map_eq_some_iff.mp h
      have step := frameStep_of_runFrame ran
      cases t with
      | caller n =>
        refine .caller n f rest fs u ?_ step
        simp only [World.frames] at hf
        cases hn : w.callers[n]? <;> simp_all
      | worker s =>
        simp only [World.frames] at hf
        cases hx : w.workers[s]? with
        | none => simp [hx] at hf
        | some x => exact .worker s x f rest fs u hx (by simpa [hx] using hf) step
  | call n a =>
    simp only [World.step] at h
    split at h <;> cases h
    exact .call n a ‹_›
  | release n =>
    simp only [World.step] at h
    split at h <;> cases h
    rename_i hc
    refine .release n hc.1 ?_ hc.2.2
    intro fs hfs
    simpa using List.all_eq_true.mp hc.2.1 fs hfs
  | reply s i r =>
    simp only [World.step, World.reply] at h
    cases hx : w.workers[s]? with
    | none => simp [hx] at h
    | some x =>
      simp only [hx] at h
      cases ht : x.waiting[i]? with
      | none => simp [ht] at h
      | some task =>
        simp only [ht, updateWorker_eq hx] at h
        split at h <;> cases h
        exact .reply s i r x task hx ht ‹_›
  | turn s k =>
    obtain ⟨x, x', es, hx, hi, step, rfl⟩ := turnStep_of_turn h
    simp only [Worker.isIdle, Bool.and_eq_true, List.isEmpty_iff, bne_iff_ne] at hi
    exact .turn s k x x' es hx hi.1 hi.2 step

end RemoteNode.Session
