import Mathlib.Data.List.InsertIdx
import RemoteNode.Proofs.Session.Bringing
import RemoteNode.Proofs.Session.Cuts

/-! A world seen from a moment on takes the turns and the steps that the world takes, as long as the
workers of before have nothing left to do but to end. -/

namespace RemoteNode.Session

namespace Cut
variable {c : Cut} {w : World} {t : Thread} {s i : Nat} {f : Frame} {x : Worker} {k : Turn}

/-! ### Turns -/

section Turns

theorem cancel_world (w : World) (i : Nat) (x : Worker) (task : Task) :
    (c.world w).cancel i (c.worker x) (c.task task) =
      c.result (w.cancel (c.workers + i) x task) := by
  cases task with
  | refresh g =>
    have phase : (c.worker x).phase = x.phase := rfl
    have spent : (c.world w).updateWorker i (fun x => { x with refreshing := .over }) =
        c.world (w.updateWorker (c.workers + i) fun x => { x with refreshing := .over }) := by
      refine (world_updateWorker (fun x => ?_) w i).symm
      rfl
    simp only [World.cancel, task, phase]
    split
    · rfl
    · exact Prod.ext spent rfl
  | job j p =>
    obtain ⟨o, cb⟩ := j
    cases o <;> rfl

theorem refreshAnswered_code (g : Stage) (limit : Exchange.Timeout)
    (a : Exchange.Arrival Exchange.Response) :
    c.code (World.refreshAnswered g limit a) = World.refreshAnswered g limit a := by
  cases g with
  | info =>
    simp only [World.refreshAnswered]
    split
    · rfl
    · rw [code_append]
      split <;> rfl
  | header | pool =>
    simp only [World.refreshAnswered]
    split <;> rfl

theorem continueWith_world (w : World) (i : Nat) (task : Task) (r : Reply) :
    (c.world w).continueWith i (c.task task) r =
      c.result (w.continueWith (c.workers + i) task r) := by
  cases r with
  | panic m => cases task <;> rfl
  | arrival a =>
    cases task with
    | refresh g => exact Prod.ext rfl (refreshAnswered_code g w.timeout a).symm
    | job j p =>
      cases p with
      | done r => rfl
      | ask command r next =>
        have limit : (c.world w).timeout = w.timeout := rfl
        simp only [task, World.continueWith, limit]
        cases answer command w.timeout a with
        | ok content => exact advance_world w i j (next content)
        | error e => rfl

theorem resume_world (h : c.Fits w) (i : Nat) (task : Task) (r : Ready) :
    (c.world w).resume i (c.task task) r = c.result (w.resume (c.workers + i) task r) := by
  cases r with
  | fresh =>
    cases task with
    | refresh g => exact Prod.ext (makeReady_world w i (.refresh g) .send) rfl
    | job j p => exact advance_world w i j p
  | send =>
    have waits : (c.world w).updateWorker i (fun x =>
          { x with waiting := x.waiting ++ [c.task task] }) =
        c.world (w.updateWorker (c.workers + i) fun x =>
          { x with waiting := x.waiting ++ [task] }) := by
      refine (world_updateWorker (fun x => ?_) w i).symm
      simp [worker]
    have sent : c.entry (.sent (c.workers + i) task) = some (.sent i (c.task task)) := by
      rw [entry, if_neg (not_early i), Nat.add_sub_cancel_left]
    refine Prod.ext ?_ rfl
    simp only [World.resume, result]
    rw [world_record (h.updateWorker _ _).entries, sent, waits]
    rfl
  | answered r =>
    have answered : c.entry (.answered (c.workers + i) task r) =
        some (.answered i (c.task task) r) := by
      rw [entry, if_neg (not_early i), Nat.add_sub_cancel_left]
    have recorded : (c.world w).record (.answered i (c.task task) r) =
        c.world (w.record (.answered (c.workers + i) task r)) := by
      rw [world_record h.entries, answered]
      rfl
    simp only [World.resume, recorded]
    exact continueWith_world _ i task r

theorem world_setFrames_late (w : World) (i : Nat) (fs : List Frame) :
    c.world (w.setFrames (.worker (c.workers + i)) fs) =
      (c.world w).setFrames (.worker i) (c.code fs) := by
  refine world_updateWorker (fun x => ?_) w i
  rfl

theorem poll_world (h : c.Fits w) (i : Nat) (x : Worker) :
    (c.world w).poll i (c.worker x) = (w.poll (c.workers + i) x).map c.world := by
  have runnable : (c.worker x).runnable =
      x.runnable.map fun a => (c.task a.1, a.2) := rfl
  have stopped : (c.worker x).stopped = x.stopped := rfl
  simp only [World.poll, runnable, stopped]
  cases x.runnable with
  | nil => rfl
  | cons head rest =>
    obtain ⟨task, r⟩ := head
    have popped : (c.world w).updateWorker i (fun x =>
          { x with runnable := rest.map fun a => (c.task a.1, a.2) }) =
        c.world (w.updateWorker (c.workers + i) fun x => { x with runnable := rest }) := by
      refine (world_updateWorker (fun x => ?_) w i).symm
      rfl
    simp only [List.map_cons, popped, Option.map_some]
    have fits := h.updateWorker (c.workers + i) fun x => { x with runnable := rest }
    split
    · rw [cancel_world, world_setFrames_late]
      rfl
    · rw [resume_world fits, world_setFrames_late]
      rfl

theorem interrupt_world (w : World) (i : Nat) (x : Worker) (j : Nat) :
    (c.world w).interrupt i (c.worker x) j = (w.interrupt (c.workers + i) x j).map c.world := by
  have waiting : (c.worker x).waiting[j]? = x.waiting[j]?.map c.task := List.getElem?_map
  have stopped : (c.worker x).stopped = x.stopped := rfl
  have removed : (c.world w).updateWorker i (fun x => { x with waiting := x.waiting.eraseIdx j }) =
      c.world (w.updateWorker (c.workers + i) fun x =>
        { x with waiting := x.waiting.eraseIdx j }) := by
    refine (world_updateWorker (fun x => ?_) w i).symm
    simp [worker, List.eraseIdx_map]
  simp only [World.interrupt, stopped, waiting, removed]
  cases x.stopped <;> cases x.waiting[j]? <;> try rfl
  simp only [Option.map_some, cancel_world, world_setFrames_late]
  rfl

theorem wake_world (w : World) (i : Nat) (x : Worker) :
    (c.world w).wake i (c.worker x) = (w.wake (c.workers + i) x).map c.world := by
  have refreshing : (c.worker x).refreshing = x.refreshing := rfl
  have stopped : (c.worker x).stopped = x.stopped := rfl
  have now (r : Refreshing) : (c.world w).updateWorker i (fun x => { x with refreshing := r }) =
      c.world (w.updateWorker (c.workers + i) fun x => { x with refreshing := r }) := by
    refine (world_updateWorker (fun x => ?_) w i).symm
    rfl
  simp only [World.wake, refreshing, stopped, now]
  split
  · rfl
  · split
    · simp only [Option.map_some, world_setFrames_late]
      rfl
    · exact congrArg some (makeReady_world _ i (.refresh .info) .send)

theorem setQueue_world (w : World) (i : Nat) (rest : List Job) :
    (c.world w).updateWorker i (fun x => { x with queue := rest.map c.job }) =
      c.world (w.updateWorker (c.workers + i) fun x => { x with queue := rest }) := by
  refine (world_updateWorker (fun x => ?_) w i).symm
  rfl

theorem take_world (w : World) (i : Nat) (x : Worker) :
    (c.world w).take i (c.worker x) = (w.take (c.workers + i) x).map c.world := by
  have phase : (c.worker x).phase = x.phase := rfl
  have queue : (c.worker x).queue = x.queue.map c.job := rfl
  simp only [World.take, phase, queue]
  cases x.phase <;> cases x.queue <;> try rfl
  rename_i j rest
  simp only [List.map_cons, setQueue_world, Option.map_some]
  exact congrArg some (makeReady_world _ i (.job j j.operation.procedure) .fresh)

theorem close_world (w : World) (i : Nat) (x : Worker) :
    (c.world w).close i (c.worker x) = (w.close (c.workers + i) x).map c.world := by
  have phase : (c.worker x).phase = x.phase := rfl
  have stopped : (c.worker x).stopped = x.stopped := rfl
  have closed : (c.world w).updateWorker i (fun x => { x with phase := .closed }) =
      c.world (w.updateWorker (c.workers + i) fun x => { x with phase := .closed }) := by
    refine (world_updateWorker (fun x => ?_) w i).symm
    rfl
  simp only [World.close, phase, stopped, closed]
  split <;> rfl

theorem reject_world (w : World) (i : Nat) (x : Worker) :
    (c.world w).reject i (c.worker x) = (w.reject (c.workers + i) x).map c.world := by
  have phase : (c.worker x).phase = x.phase := rfl
  have queue : (c.worker x).queue = x.queue.map c.job := rfl
  simp only [World.reject, phase, queue]
  cases x.phase <;> cases x.queue <;> try rfl
  rename_i j rest
  simp only [List.map_cons, setQueue_world, Option.map_some, world_setFrames_late]
  obtain ⟨o, cb⟩ := j
  cases o <;> rfl

theorem finish_world (w : World) (i : Nat) (x : Worker) :
    (c.world w).finish i (c.worker x) = (w.finish (c.workers + i) x).map c.world := by
  have phase : (c.worker x).phase = x.phase := rfl
  have queue : (c.worker x).queue.isEmpty = x.queue.isEmpty := by simp [worker]
  have runnable : (c.worker x).runnable.isEmpty = x.runnable.isEmpty := by simp [worker]
  have waiting : (c.worker x).waiting.isEmpty = x.waiting.isEmpty := by simp [worker]
  have refreshing : (c.worker x).refreshing = x.refreshing := rfl
  simp only [World.finish, phase, queue, runnable, waiting, refreshing]
  split
  · simp only [Option.map_some, world_setFrames_late]
    rfl
  · rfl

theorem turn_world (h : c.Fits w) (i : Nat) (k : Turn) :
    (c.world w).turn i k = (w.turn (c.workers + i) k).map c.world := by
  simp only [World.turn, workers_late]
  cases w.workers[c.workers + i]? with
  | none => rfl
  | some x =>
    have idle : (c.worker x).isIdle = x.isIdle := by simp [Worker.isIdle, worker, code]
    simp only [Option.map_some, idle]
    split
    · cases k with
      | poll => exact poll_world h i x
      | interrupt j => exact interrupt_world w i x j
      | wake => exact wake_world w i x
      | take => exact take_world w i x
      | close => exact close_world w i x
      | reject => exact reject_world w i x
      | finish => exact finish_world w i x
    · rfl

theorem reply_world (w : World) (i j : Nat) (r : Reply) :
    (c.world w).reply i j r = (w.reply (c.workers + i) j r).map c.world := by
  simp only [World.reply, workers_late]
  cases w.workers[c.workers + i]? with
  | none => rfl
  | some x =>
    have waiting : (c.worker x).waiting[j]? = x.waiting[j]?.map c.task := List.getElem?_map
    simp only [Option.map_some, waiting]
    cases x.waiting[j]? with
    | none => rfl
    | some task =>
      have fits : r.fits (c.task task) = r.fits task := by cases r <;> cases task <;> rfl
      have answered : (c.world w).updateWorker i (fun x => { x with
            waiting := x.waiting.eraseIdx j
            runnable := x.runnable ++ [(c.task task, .answered r)] }) =
          c.world (w.updateWorker (c.workers + i) fun x => { x with
            waiting := x.waiting.eraseIdx j
            runnable := x.runnable ++ [(task, .answered r)] }) := by
        refine (world_updateWorker (fun x => ?_) w i).symm
        simp [worker, List.eraseIdx_map]
      simp only [Option.map_some, fits, answered]
      split <;> rfl

end Turns
end Cut

/-! ### Steps -/

/-- A worker that has ended, or has nothing of its own left to do but to end. -/
structure Worker.IsSpent (x : Worker) : Prop where
  tasks : x.tasks = []
  leaves : x.phase = .ended ∨ .leave ∈ x.frames
  only : ∀ f ∈ x.frames, f.isOwn = true → f = .leave

/-- A worker that is spent stays so, and only ends. -/
theorem WorkerStep.isSpent {w : World} {m : Move} {s : Nat} {x y : Worker} (h : x.IsSpent)
    (step : WorkerStep w m s x y) : y.IsSpent ∧ (y.phase = x.phase ∨ y.phase = .ended) := by
  obtain ⟨tasks, leaves, only⟩ := h
  cases step with
  | others y away touched =>
    refine ⟨⟨touched.tasks.trans tasks, ?_, ?_⟩, .inl touched.phase⟩
    · rwa [touched.phase, touched.frames]
    · rwa [touched.frames]
  | foreign f rest fs u y here hf step notOwn touched =>
    rw [hf] at leaves only
    refine ⟨⟨touched.tasks.trans tasks, ?_, fun g hg own => ?_⟩, .inl touched.phase⟩
    · refine leaves.imp (touched.phase.trans ·) fun inCode => ?_
      obtain rfl | inRest := List.mem_cons.mp inCode
      · cases notOwn
      · exact List.mem_append_right _ inRest
    · rcases List.mem_append.mp hg with pushed | left
      · rw [step.foreign notOwn g pushed] at own
        cases own
      · exact only g (List.mem_cons_of_mem _ left) own
  | own f rest fs x' c chain here hf step =>
    rw [hf] at only
    cases only f (List.mem_cons_self ..) step.isOwn
    cases step
  | markFailed rest here hf =>
    rw [hf] at only
    cases only _ (List.mem_cons_self ..) rfl
  | leave rest here hf =>
    rw [hf] at only
    exact ⟨⟨tasks, .inl rfl, fun f inRest => only f (List.mem_cons_of_mem _ inRest)⟩, .inr rfl⟩
  | reply i r task here there =>
    have inTasks : task ∈ x.tasks := List.mem_append_right _ (List.mem_of_getElem? there)
    rw [tasks] at inTasks
    cases inTasks
  | turn k x' es here idle stays =>
    rw [idle] at leaves
    obtain ended | inCode := leaves
    · exact absurd ended stays
    · cases inCode

namespace Cut
variable {c : Cut} {w u v : World} {m : Move} {t : Thread} {f : Frame} {fs rest : List Frame}
  {s : Nat} {x : Worker}

theorem Fits.run (h : c.Fits w) (step : FrameStep w t f u fs) : c.Fits u := by
  obtain ⟨es, log, -⟩ := step.log
  refine h.of_le ?_ (by rw [step.callers]) (by simp [log])
  obtain same | ⟨more, -⟩ := step.length_workers <;> omega

theorem Fits.step (h : c.Fits w) (step : WorldStep w m v) : c.Fits v := by
  obtain ⟨es, log, -⟩ := step.log
  have workers : w.workers.length ≤ v.workers.length := by
    obtain same | ⟨more, -⟩ := step.length_workers <;> omega
  refine h.of_le workers ?_ (by simp [log])
  cases step with
  | caller n f rest fs u code ran => simp [ran.callers]
  | worker r z f rest fs u hz hf ran => exact congrArg List.length ran.callers
  | call | release => simp
  | reply | turn => rfl

/-- Handles stay those of later workers. -/
theorem Late.step (late : c.Late w.connection) (fits : c.Fits w) (step : WorldStep w m v) :
    c.Late v.connection := by
  have workers := fits.workers
  obtain same | ⟨t, f, rest, -, -, change⟩ := step.connectionStep
  · rwa [same]
  · intro s hs
    generalize v.connection = a at change hs
    cases change with
    | keep | mark | fail => exact late s hs
    | take => rcases hs with hs | hs <;> cases hs
    | start =>
      obtain rfl : w.workers.length = s := by rcases hs with hs | hs <;> exact Option.some.inj hs
      exact workers
    | begin =>
      rcases hs with hs | hs
      · cases hs
      · exact late s (.inr hs)
    | finish =>
      rcases hs with hs | hs
      · exact late s (.inl hs)
      · cases hs

/-- The workers of before are spent, and none of them takes a job. -/
structure Spent (c : Cut) (w : World) : Prop where
  fits : c.Fits w
  workers : ∀ s x, s < c.workers → w.workers[s]? = some x → x.IsSpent
  closed : ∀ t s j x, .enqueue s j ∈ w.frames t → s < c.workers → w.workers[s]? = some x →
    x.isClosed = true

/-- They stay so unless a job is sent to one of them. -/
theorem Spent.step (h : c.Spent w) (served : ∀ s, w.connection.server = .ok s → c.workers ≤ s)
    (step : WorldStep w m v) : c.Spent v := by
  have workers := h.fits.workers
  have before {s : Nat} {y : Worker} (early : s < c.workers) (hy : v.workers[s]? = some y) :
      ∃ x, w.workers[s]? = some x ∧ WorkerStep w m s x y := by
    obtain old | ⟨new, -⟩ := step.cameFrom hy
    · exact old
    · omega
  refine ⟨h.fits.step step, fun s y early hy => ?_, fun t s j y hj early hy => ?_⟩
  · obtain ⟨x, hx, worker⟩ := before early hy
    exact (worker.isSpent (h.workers s x early hx)).1
  · obtain ⟨x, hx, worker⟩ := before early hy
    obtain old | ⟨-, -, -, served'⟩ := World.enqueue_source step hj
    · have closed := h.closed t s j x old early hx
      obtain same | ended := (worker.isSpent (h.workers s x early hx)).2
      · simpa [Worker.isClosed, same] using closed
      · simp [Worker.isClosed, ended]
    · have := served s served'
      omega

theorem leave_world (h : c.Fits w) (early : s < c.workers) (hx : w.workers[s]? = some x) :
    (c.world w).runFrame (c.thread (.worker s)) .leave =
      (w.runFrame (.worker s) .leave).map c.result := by
  have gone : c.world ((w.updateWorker s fun x =>
      { x with phase := .ended, refreshing := .over }).record (.ended s)) = c.world w := by
    rw [world_record (h.updateWorker _ _).entries, entry, if_pos early]
    refine world_updateWorker_early (fun x => ?_) w early
    rfl
  have stray : (c.world w).runFrame (.caller (c.callers + s)) .leave = some (c.world w, []) := rfl
  rw [thread_early early, stray, runFrame_worker hx rfl (by simp)]
  exact congrArg some (Prod.ext gone.symm rfl)

theorem runFrame_world (h : c.Spent w) (late : c.Late w.connection) (mine : f ∈ w.frames t)
    (free : ∀ s, f = .join s → s < c.workers → t = .worker s ∨ w.hasEnded s = true) :
    (c.world w).runFrame (c.thread t) (c.frame f) = (w.runFrame t f).map c.result := by
  have fits := h.fits
  by_cases own : f.isOwn = true ∧ f ≠ .markFailed
  · obtain ⟨own, decided⟩ := own
    have same : c.frame f = f := by cases f <;> first | rfl | cases own
    rw [same]
    cases t with
    | caller n =>
      have caller : c.thread (.caller n) =
          .caller (if n < c.callers then n else n + c.workers) := rfl
      rw [caller, runFrame_caller _ _ own decided, runFrame_caller _ _ own decided]
      rfl
    | worker s =>
      obtain ⟨x, hx⟩ : ∃ x, w.workers[s]? = some x := by
        obtain ⟨g, gs, code⟩ := List.exists_cons_of_ne_nil (List.ne_nil_of_mem mine)
        obtain ⟨x, hx, -⟩ := worker_of_frames code
        exact ⟨x, hx⟩
      obtain early | ⟨i, rfl⟩ := c.early_or_late s
      · rw [frames_worker hx] at mine
        obtain rfl := (h.workers s x early hx).only f mine own
        exact leave_world fits early hx
      · have hx' : (c.world w).workers[i]? = some (c.worker x) := by rw [workers_late, hx]; rfl
        rw [thread_late, runFrame_worker hx' own decided, runFrame_worker hx own decided]
        exact congrArg some (workerFrame_world fits i x f)
  · cases f with
    | script src acts => exact congrArg some (script_world fits t src acts)
    | returning src a v =>
      have returned := world_record fits.entries (.returned src a v)
      exact congrArg some (Prod.ext returned.symm rfl)
    | takeStale cb => exact takeStale_world late t cb
    | start cb => exact congrArg some (start_world fits cb)
    | signal s => exact signal_world w t s
    | join s => exact join_world w t s (free s rfl)
    | beginShutdown src a => exact beginShutdown_world late t src a
    | forgetChain | forgetFeeAddress | finishShutdown => rfl
    | dispatch j => exact dispatch_world late t j
    | enqueue s j => exact enqueue_world w t s j fun early x hx => h.closed t s j x mine early hx
    | conclude j r => exact congrArg some (conclude_world w j r)
    | complete cb o => exact complete_world fits t cb o
    | notify n => exact notify_world fits t n
    | deliver n rest => exact congrArg some (deliver_world fits n rest)
    | awaitDelivery side => exact awaitDelivery_world w t side
    | markFailed =>
      have failed : (c.connection w.connection).markFailed =
          c.connection w.connection.markFailed := by
        by_cases opening : w.connection.stopping = false ∧ w.connection.state = .initializing
        · rw [Connection.markFailed, Connection.markFailed, if_pos opening]
          exact if_pos opening
        · rw [Connection.markFailed, Connection.markFailed, if_neg opening]
          exact if_neg opening
      have marked := congrArg (fun a => { c.world w with connection := a }) failed
      exact congrArg some (Prod.ext marked rfl)
    | _ => exact absurd ⟨rfl, by simp⟩ own

theorem run_world (h : c.Fits w) (code : w.frames t = f :: rest)
    (same : (c.world w).runFrame (c.thread t) (c.frame f) = (w.runFrame t f).map c.result) :
    (c.world w).run (c.thread t) = (w.run t).map c.world := by
  have code' : (c.world w).frames (c.thread t) = c.frame f :: c.code rest := by
    rw [frames_world h, code]
    rfl
  simp only [World.run, code, code', same]
  cases ran : w.runFrame t f with
  | none => rfl
  | some r =>
    obtain ⟨u, fs⟩ := r
    simp only [Option.map_some, result]
    rw [world_setFrames (h.run (frameStep_of_runFrame ran)), code_append]

/-- The world and what it is from the moment on may take a move alike: no thread goes on that waits
for a worker of before, nobody calls who was not there, and the remote node is let go of only when
the workers of before have no code left. -/
def Fair (c : Cut) (w : World) : Move → Prop
  | .run t => ∀ s rest, w.frames t = .join s :: rest → s < c.workers →
    t = .worker s ∨ w.hasEnded s = true
  | .call n _ => n < c.callers
  | .release n => n < c.callers ∧ ∀ s < c.workers, w.frames (.worker s) = []
  | .reply s _ _ => c.workers ≤ s
  | .turn s _ => c.workers ≤ s

theorem callers_world (w : World) (idle : ∀ s < c.workers, w.frames (.worker s) = []) :
    (c.world w).callers.all (·.isEmpty) = w.callers.all (·.isEmpty) := by
  have workers : ((w.workers.take c.workers).map (c.code ·.frames)).all (·.isEmpty) = true := by
    simp only [List.all_map, List.all_eq_true]
    intro x hx
    obtain ⟨s, there, rfl⟩ := List.mem_take_iff_getElem.mp hx
    have none := idle s (by omega)
    rw [frames_worker (List.getElem?_eq_getElem (by omega))] at none
    simp [none, code]
  have callers : (w.callers.map c.code).all (·.isEmpty) = w.callers.all (·.isEmpty) := by
    simp [List.all_map, Function.comp_def, code]
  simp only [world, List.all_append, workers, callers, Bool.and_true]

theorem step_world (h : c.Spent w) (late : c.Late w.connection) (fair : c.Fair w m) :
    (c.world w).step (c.move m) = (w.step m).map c.world := by
  have fits := h.fits
  have callers := fits.callers
  cases m with
  | run t =>
    cases code : w.frames t with
    | nil =>
      have code' : (c.world w).frames (c.thread t) = [] := by
        rw [frames_world fits, code]
        rfl
      simp only [move, World.step, World.run, code, code', Option.map_none]
    | cons f rest =>
      have mine : f ∈ w.frames t := by
        rw [code]
        exact List.mem_cons_self ..
      refine run_world fits code (runFrame_world h late mine ?_)
      rintro s rfl
      exact fair s rest code
  | call n a =>
    have early : n < c.callers := fair
    have there : n < w.callers.length := callers ▸ early
    have caller : c.thread (.caller n) = .caller n := by rw [thread, if_pos early]
    have called := world_setFrames fits (.caller n) [.script .caller [a]]
    rw [caller] at called
    have same : (c.world w).callers[n]? = (w.callers[n]?).map c.code := by
      simp [world, List.getElem?_append, there]
    simp only [move, World.step, same]
    cases w.callers[n]? with
    | none => rfl
    | some code =>
      cases code with
      | nil => exact congrArg some called.symm
      | cons f rest => rfl
  | release n =>
    obtain ⟨there, idle⟩ := fair
    have caller : c.thread (.caller n) = .caller n := by rw [thread, if_pos there]
    have fits' : c.Fits { w with gone := true } := ⟨fits.workers, fits.callers, fits.entries⟩
    have released := world_setFrames fits' (.caller n) [.beginShutdown .caller .shutdown]
    rw [caller] at released
    have gone : (c.world w).gone = w.gone := rfl
    have more : n < (c.world w).callers.length ↔ n < w.callers.length := by
      simp [world]
      omega
    simp only [move, World.step, callers_world w idle, gone, more]
    split
    · exact congrArg some released.symm
    · rfl
  | reply s i r =>
    obtain early | ⟨j, rfl⟩ := c.early_or_late s
    · exact absurd early (Nat.not_lt.mpr fair)
    · simp only [move, World.step, Nat.add_sub_cancel_left]
      exact reply_world w j i r
  | turn s k =>
    obtain early | ⟨j, rfl⟩ := c.early_or_late s
    · exact absurd early (Nat.not_lt.mpr fair)
    · simp only [move, World.step, Nat.add_sub_cancel_left]
      exact turn_world fits j k

/-- A move that the world can take is fair, but for letting go of the remote node. -/
theorem fair_of_step (h : c.Spent w) (step : WorldStep w m v)
    (released : ∀ n, m = .release n → ∀ s < c.workers, w.frames (.worker s) = []) : c.Fair w m := by
  have callers := h.fits.callers
  have spent {s : Nat} {x : Worker} (hx : w.workers[s]? = some x) (busy : ¬x.IsSpent) :
      c.workers ≤ s := by
    by_contra early
    exact busy (h.workers s x (by omega) hx)
  cases m with
  | run t =>
    obtain ⟨f, rest, fs, u, code, ran, -⟩ := step.ran
    intro s rest' code' early
    rw [code] at code'
    obtain ⟨rfl, -⟩ := List.cons.inj code'
    cases ran with
    | join s free => exact free
    | own f s x x' a chain fs isHere hx own => cases own
    | stray f own => cases own
  | call n a =>
    cases step with
    | call n a idle =>
      have there := (List.getElem?_eq_some_iff.mp idle).1
      rwa [callers] at there
  | release n =>
    cases step with
    | release n there => exact ⟨callers ▸ there, released n rfl⟩
  | reply s i r =>
    cases step with
    | reply s i r x task hx there =>
      refine spent hx fun spent => ?_
      have inTasks : task ∈ x.tasks := List.mem_append_right _ (List.mem_of_getElem? there)
      rw [spent.tasks] at inTasks
      cases inTasks
  | turn s k =>
    cases step with
    | turn s k x y es hx idle stays turn =>
      refine spent hx fun spent => ?_
      obtain ended | leaves := spent.leaves
      · exact stays ended
      · rw [idle] at leaves
        cases leaves

end Cut
end RemoteNode.Session
