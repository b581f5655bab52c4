import RemoteNode.Proofs.Session.Tickets

/-! How jobs and callbacks are handed on. A job stays with its worker until code has its result,
code keeps a callback until it is called, and what a callback is to be given never changes. -/

namespace RemoteNode.Session

/-- The worker and the task of a request that was sent or of a reply that was taken. -/
def Entry.exchange? : Entry → Option (Nat × Task)
  | sent s task => some (s, task)
  | answered s task _ => some (s, task)
  | _ => none

/-- A worker has a job, in its queue or as a task. -/
def Worker.Holds (x : Worker) (j : Job) : Prop := j ∈ x.queue ∨ ∃ p, .job j p ∈ x.tasks

section Frames
variable {w u v : World} {m : Move} {t : Thread} {f : Frame} {fs rest : List Frame} {s : Nat}
  {x y : Worker} {j : Job}

theorem WorldStep.frame (step : WorldStep w m v) (h : f ∈ w.frames t) :
    f ∈ v.frames t ∨ ∃ rest fs u, m = .run t ∧ w.frames t = f :: rest ∧ FrameStep w t f u fs ∧
      v = u.setFrames t (fs ++ rest) ∧ v.frames t = fs ++ rest := by
  have thread := step.threadStep t
  generalize hw : w.frames t = code, hv : v.frames t = code' at thread
  rw [hw] at h
  cases thread with
  | same => exact .inl h
  | run g rest fs u here code ran result =>
    rcases List.mem_cons.mp h with rfl | h
    · exact .inr ⟨rest, fs, u, here, rfl, ran, result, rfl⟩
    · exact .inl (List.mem_append_right _ h)
  | call | release | turn | started => cases h

/-- What running a frame writes to the log is no part of an exchange with the node. -/
theorem FrameStep.log (step : FrameStep w t f u fs) :
    ∃ es, u.log = es ++ w.log ∧ ∀ e ∈ es, e.exchange? = none := by
  cases step with
  | returning src a v => exact ⟨[.returned src a v], rfl, by simp [Entry.exchange?]⟩
  | init src label after | operate src label o after =>
    exact ⟨[.called (w.draw t label after).1], rfl, by simp [Entry.exchange?]⟩
  | complete cb o => exact ⟨[.completed cb o (t = cb.thread)], rfl, by simp [Entry.exchange?]⟩
  | notifyNobody n | notify n =>
    exact ⟨[.announced t n], by simp [World.record, World.setRegistry_eq, World.setDelivery_eq],
      by simp [Entry.exchange?]⟩
  | deliver n o => exact ⟨[.notified o n], rfl, by simp [Entry.exchange?]⟩
  | leave s => exact ⟨[.ended s], rfl, by simp [Entry.exchange?]⟩
  | register | unregister | unregisterAwait | delivered =>
    exact ⟨[], by simp [World.setRegistry_eq, World.setDelivery_eq], by simp⟩
  | _ => exact ⟨[], rfl, by simp⟩

theorem log_setFrames (u : World) (t : Thread) (fs : List Frame) :
    (u.setFrames t fs).log = u.log := by
  cases t <;> rfl

/-- The log only grows. Only an idle worker that was not told to stop sends a request or takes a
reply, and it does so for its first ready task. -/
theorem WorldStep.log (step : WorldStep w m v) :
    ∃ es, v.log = es ++ w.log ∧ ∀ e ∈ es, ∀ s task, e.exchange? = some (s, task) →
      ∃ x r rest, w.workers[s]? = some x ∧ x.frames = [] ∧ x.stopped = false ∧
        x.runnable = (task, r) :: rest := by
  cases m with
  | run t =>
    obtain ⟨f, rest, fs, u, -, ran, rfl, -⟩ := step.ran
    obtain ⟨es, he, none⟩ := ran.log
    refine ⟨es, by rw [log_setFrames, he], fun e h s task exchange => ?_⟩
    rw [none e h] at exchange
    cases exchange
  | call | release | reply => cases step; exact ⟨[], rfl, by simp⟩
  | turn s k =>
    cases step with
    | turn s k x y es hx idle stays turn =>
      refine ⟨es, rfl, fun e h r task exchange => ?_⟩
      cases turn with
      | send task' rest going ready | answered task' r' rest going ready =>
        simp only [List.mem_singleton] at h
        subst h
        cases exchange
        exact ⟨x, _, rest, hx, idle, going, ready⟩
      | _ => cases h

/-- A worker that takes no turn exchanges nothing with the node. -/
theorem WorldStep.quiet (step : WorldStep w m v) (away : ∀ k, m ≠ .turn s k) :
    ∃ es, v.log = es ++ w.log ∧ ∀ e ∈ es, ∀ task, e.exchange? ≠ some (s, task) := by
  cases m with
  | run t =>
    obtain ⟨f, rest, fs, u, -, ran, rfl, -⟩ := step.ran
    obtain ⟨es, he, none⟩ := ran.log
    refine ⟨es, by rw [log_setFrames, he], fun e h task exchange => ?_⟩
    rw [none e h] at exchange
    cases exchange
  | call | release | reply => cases step; exact ⟨[], rfl, by simp⟩
  | turn r k =>
    have other : r ≠ s := fun same => away k (same ▸ rfl)
    cases step with
    | turn r k x y es hx idle stays turn =>
      refine ⟨es, rfl, fun e h task exchange => ?_⟩
      cases turn with
      | send | answered =>
        rw [List.mem_singleton.mp h] at exchange
        cases exchange
        exact other rfl
      | _ => cases h

/-- In a step a worker takes a turn, or it exchanges nothing with the node. -/
theorem WorldStep.turn_or_quiet (hx : w.workers[s]? = some x) (step : WorldStep w m v)
    (hy : v.workers[s]? = some y) :
    (∃ k es, m = .turn s k ∧ x.frames = [] ∧ TurnStep w.timeout s x k y es ∧
        v.log = es ++ w.log) ∨
      (∀ k, m ≠ .turn s k) ∧
        ∃ es, v.log = es ++ w.log ∧ ∀ e ∈ es, ∀ task, e.exchange? ≠ some (s, task) := by
  by_cases turns : ∃ k, m = .turn s k
  · obtain ⟨k, rfl⟩ := turns
    cases step with
    | turn r k z y' es hz idle stays turn =>
      rw [hx] at hz
      cases hz
      have there : s < w.workers.length := (List.getElem?_eq_some_iff.mp hx).1
      obtain rfl : y' = y := by
        have : (w.withWorker s y').workers[s]? = some y := hy
        simpa [World.withWorker, there] using this
      exact .inl ⟨k, es, rfl, idle, turn, rfl⟩
  · have away : ∀ k, m ≠ .turn s k := fun k here => turns ⟨k, here⟩
    exact .inr ⟨away, step.quiet away⟩

end Frames

section Jobs
variable {w u v : World} {m : Move} {t : Thread} {f : Frame} {fs rest : List Frame} {s k : Nat}
  {x y : Worker} {j : Job} {limit : Exchange.Timeout} {i : Turn} {es : List Entry}

/-- The code that an idle worker starts for a job: it was interrupted, or it has its result. -/
def Worker.HandsOver (x y : Worker) (j : Job) : Prop :=
  .complete j.callback (j.outcome (.error .interrupted)) ∈ y.frames ∨
    x.stopped = false ∧ ∃ r, .conclude j r ∈ y.frames

theorem mem_tasks_poll {task a : Task} {r : Ready} {rest : List (Task × Ready)}
    (h : x.runnable = (task, r) :: rest) (ha : a ∈ x.tasks) :
    a = task ∨ a ∈ ({ x with runnable := rest } : Worker).tasks := by
  simp only [Worker.tasks, h, List.map_cons, List.cons_append, List.mem_cons] at ha
  exact ha

theorem mem_tasks_interrupt {n : Nat} {task a : Task} (h : x.waiting[n]? = some task)
    (ha : a ∈ x.tasks) :
    a = task ∨ a ∈ ({ x with waiting := x.waiting.eraseIdx n } : Worker).tasks := by
  simp only [Worker.tasks, List.mem_append] at ha ⊢
  rcases ha with ready | waits
  · exact .inr (.inl ready)
  · obtain ⟨i, hi⟩ := List.mem_iff_getElem?.mp waits
    by_cases same : i = n
    · subst same
      rw [h] at hi
      exact .inl (Option.some.inj hi).symm
    · exact .inr (.inr (List.mem_eraseIdx_iff_getElem?.mpr ⟨i, same, hi⟩))

theorem mem_tasks_ready (x : Worker) (task : Task) (r : Ready) {a : Task}
    (h : a = task ∨ a ∈ x.tasks) :
    a ∈ ({ x with runnable := x.runnable ++ [(task, r)] } : Worker).tasks := by
  simp only [Worker.tasks, List.map_append, List.map_cons, List.map_nil, List.mem_append,
    List.mem_singleton] at h ⊢
  tauto

/-- A task that goes on when its worker has none of its own code is handed over or kept. -/
theorem holds_advanced (x : Worker) (j : Job) (p : Procedure j.operation.Result) :
    (x.advanced j p).Holds j ∨ ∃ r, .conclude j r ∈ (x.advanced j p).frames := by
  obtain ⟨r, e⟩ | e := x.advanced_cases j p
  · exact .inr ⟨r, by simp [e]⟩
  · exact .inl (.inr ⟨p, e ▸ mem_tasks_ready x _ _ (.inl rfl)⟩)

theorem holds_answered (x : Worker) (limit : Exchange.Timeout) (j : Job)
    (p : Procedure j.operation.Result) (r : Reply) :
    (x.answered limit (.job j p) r).Holds j ∨
      ∃ q, .conclude j q ∈ (x.answered limit (.job j p) r).frames := by
  obtain ⟨q, e⟩ | ⟨q, e⟩ := x.answered_job_cases limit j p r
  · exact .inr ⟨q, by simp [e]⟩
  · exact .inl (.inr ⟨q, e ▸ mem_tasks_ready x _ _ (.inl rfl)⟩)

/-- An idle worker keeps a job or hands it over to the code that it starts. -/
theorem TurnStep.holds (step : TurnStep limit s x i y es) (h : x.Holds j) :
    y.Holds j ∨ x.HandsOver y j := by
  have cancelled {z : Worker} {p : Procedure j.operation.Result} :
      x.HandsOver (z.cancelled (.job j p)) j := .inl (by simp [Worker.cancelled])
  rcases h with queued | ⟨p, inTasks⟩
  · -- a job that waits in the queue is left there, taken or rejected
    cases step with
    | pollStopped task r rest =>
      obtain ⟨r, fs, e⟩ := ({ x with runnable := rest } : Worker).cancelled_eq task
      exact .inl (e ▸ .inl queued)
    | interrupt n task =>
      obtain ⟨r, fs, e⟩ := ({ x with waiting := x.waiting.eraseIdx n } : Worker).cancelled_eq task
      exact .inl (e ▸ .inl queued)
    | beginJob j' p rest =>
      obtain ⟨r, e⟩ | e := ({ x with runnable := rest } : Worker).advanced_cases j' p
      all_goals exact .inl (e ▸ .inl queued)
    | answered task r rest =>
      obtain ⟨rs, fs, e⟩ := ({ x with runnable := rest } : Worker).answered_eq limit task r
      exact .inl (e ▸ .inl queued)
    | take j' rest live h =>
      rw [h] at queued
      rcases List.mem_cons.mp queued with rfl | queued
      · exact .inl (.inr ⟨_, mem_tasks_ready { x with queue := rest } _ _ (.inl rfl)⟩)
      · exact .inl (.inl queued)
    | reject j' rest closed h =>
      rw [h] at queued
      rcases List.mem_cons.mp queued with rfl | queued
      · exact .inr (.inl (by simp))
      · exact .inl (.inl queued)
    | finish closed queue =>
      rw [queue] at queued
      cases queued
    | _ => exact .inl (.inl queued)
  · -- a task is left where it is, sent, gone on with or ended
    cases step with
    | pollStopped task r rest stopped h =>
      obtain ⟨q, fs, e⟩ := ({ x with runnable := rest } : Worker).cancelled_eq task
      rcases mem_tasks_poll h inTasks with rfl | stays
      · exact .inr cancelled
      · exact .inl (e ▸ .inr ⟨p, stays⟩)
    | interrupt n task stopped h =>
      obtain ⟨q, fs, e⟩ := ({ x with waiting := x.waiting.eraseIdx n } : Worker).cancelled_eq task
      rcases mem_tasks_interrupt h inTasks with rfl | stays
      · exact .inr cancelled
      · exact .inl (e ▸ .inr ⟨p, stays⟩)
    | send task rest going h =>
      refine .inl (.inr ⟨p, ?_⟩)
      have := mem_tasks_poll h inTasks
      simp only [Worker.tasks, List.mem_append, List.mem_singleton] at this ⊢
      tauto
    | beginJob j' p' rest going h =>
      rcases mem_tasks_poll h inTasks with same | stays
      · cases same
        exact (holds_advanced { x with runnable := rest } j p).imp_right fun code =>
          .inr ⟨going, code⟩
      · obtain ⟨r, e⟩ | e := ({ x with runnable := rest } : Worker).advanced_cases j' p'
        · exact .inl (e ▸ .inr ⟨p, stays⟩)
        · exact .inl (e ▸ .inr ⟨p, mem_tasks_ready { x with runnable := rest } _ _ (.inr stays)⟩)
    | beginRefresh g rest going h =>
      rcases mem_tasks_poll h inTasks with same | stays
      · cases same
      · exact .inl (.inr ⟨p, mem_tasks_ready { x with runnable := rest } _ _ (.inr stays)⟩)
    | answered task r rest going h =>
      rcases mem_tasks_poll h inTasks with rfl | stays
      · exact (holds_answered { x with runnable := rest } limit j p r).imp_right fun code =>
          .inr ⟨going, code⟩
      · cases task with
        | refresh g => cases r <;> exact .inl (.inr ⟨p, stays⟩)
        | job j' p' =>
          obtain ⟨q, e⟩ | ⟨q, e⟩ :=
            ({ x with runnable := rest } : Worker).answered_job_cases limit j' p' r
          · exact .inl (e ▸ .inr ⟨p, stays⟩)
          · exact .inl (e ▸ .inr ⟨p, mem_tasks_ready { x with runnable := rest } _ _ (.inr stays)⟩)
    | wake => exact .inl (.inr ⟨p, mem_tasks_ready x _ _ (.inr inTasks)⟩)
    | take j' rest => exact .inl (.inr ⟨p, mem_tasks_ready x _ _ (.inr inTasks)⟩)
    | _ => exact .inl (.inr ⟨p, inTasks⟩)

/-- Whatever a step means to a worker, it keeps a job or hands it over to its code. -/
theorem WorkerStep.holds (step : WorkerStep w m s x y) (h : x.Holds j) :
    y.Holds j ∨ x.HandsOver y j := by
  have touched {y : Worker} (touched : x.Touched y) : y.Holds j := by
    have tasks := touched.tasks
    rw [Worker.Holds, tasks]
    obtain same | ⟨-, j', more⟩ := touched.queue
    · rwa [same]
    · rw [more]
      exact h.imp_left fun queued => List.mem_append_left _ queued
  cases step with
  | others y away same => exact .inl (touched same)
  | foreign f rest fs u y here hf step notOwn same =>
    have kept : y.Holds j := touched same
    exact .inl kept
  | own f rest fs x' c chain here hf step =>
    left
    cases step with
    | connect | askHeader | askPool =>
      exact h.imp_right (Exists.imp fun p inTasks => mem_tasks_ready x _ _ (.inr inTasks))
    | _ => exact h
  | markFailed | leave => exact .inl h
  | reply i r task here waits fits =>
    refine .inl (h.imp_right (Exists.imp fun p inTasks => ?_))
    exact mem_tasks_ready { x with waiting := x.waiting.eraseIdx i } _ _
      (mem_tasks_interrupt waits inTasks)
  | turn k y es here idle stays step => exact step.holds h

end Jobs

end RemoteNode.Session
