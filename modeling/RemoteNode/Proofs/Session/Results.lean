import RemoteNode.Proofs.Session.Standing

/-! Who brings the result of a job. Jobs are taken by a worker that serves, and a result is all the
code that its worker has left, so that nobody else is in the midst of something when it is kept. -/

namespace RemoteNode.Session

/-- The frame keeps the result of a job. -/
def Frame.concludes : Frame → Bool
  | conclude _ _ => true
  | _ => false

/-- A worker has no jobs while it opens, and a result is all the code it has left. -/
structure Worker.Serving (x : Worker) : Prop where
  jobs : ∀ task ∈ x.tasks, task.isRefresh = false → x.phase ≠ .opening
  alone : ∀ f ∈ x.frames, f.concludes = true →
    x.frames = [f] ∧ (x.phase = .live ∨ x.phase = .closed)

section Results
variable {w u v : World} {m : Move} {t : Thread} {f : Frame} {fs rest : List Frame} {s : Nat}
  {x x' y : Worker} {c : Connection} {chain : ChainView} {k : Turn} {limit : Exchange.Timeout}
  {es : List Entry} {task : Task}

theorem OwnStep.concludes (own : OwnStep w x f x' c chain fs) :
    ∀ g ∈ fs, g.concludes = false := by
  apply none_of_any
  cases own with
  | notePeers | noteKnown | noteHeader | notePool => split <;> rfl
  | _ => rfl

theorem FrameStep.concludes (step : FrameStep w t f u fs) : ∀ g ∈ fs, g.concludes = false := by
  cases step with
  | own f s x x' c chain fs isHere hx own => exact own.concludes
  | _ => exact none_of_any rfl

theorem Worker.cancelled_concludes (x : Worker) (task : Task) :
    ∀ g ∈ (x.cancelled task).frames, g.concludes = false := by
  cases task with
  | job j p => exact none_of_any rfl
  | refresh g =>
    rw [Worker.cancelled]
    split <;> exact none_of_any rfl

theorem RefreshCode.concludes (code : RefreshCode fs) : ∀ g ∈ fs, g.concludes = false := by
  cases code <;> exact none_of_any rfl

/-- An idle worker that was not told to stop brings the result of a job it has. -/
theorem TurnStep.concludes (step : TurnStep limit s x k y es) (idle : x.frames = [])
    (hf : f ∈ y.frames) (concludes : f.concludes = true) : y.frames = [f] ∧ x.stopped = false ∧
      y.phase = x.phase ∧ ∃ task ∈ x.tasks, task.isRefresh = false := by
  have ready {task : Task} {r : Ready} {rest : List (Task × Ready)}
      (h : x.runnable = (task, r) :: rest) : task ∈ x.tasks := by simp [Worker.tasks, h]
  cases step with
  | pollStopped task r rest =>
    rw [Worker.cancelled_concludes _ task f hf] at concludes
    cases concludes
  | interrupt i task =>
    rw [Worker.cancelled_concludes _ task f hf] at concludes
    cases concludes
  | beginJob j p rest going first =>
    obtain ⟨r, e⟩ | e := ({ x with runnable := rest } : Worker).advanced_cases j p
    · rw [e] at hf ⊢
      simp only [List.mem_singleton] at hf
      subst hf
      exact ⟨rfl, going, rfl, _, ready first, rfl⟩
    · rw [e] at hf
      simp [idle] at hf
  | answered task r rest going first =>
    cases task with
    | job j p =>
      obtain ⟨q, e⟩ | ⟨q, e⟩ :=
        ({ x with runnable := rest } : Worker).answered_job_cases limit j p r
      · rw [e] at hf ⊢
        simp only [List.mem_singleton] at hf
        subst hf
        exact ⟨rfl, going, rfl, _, ready first, rfl⟩
      · rw [e] at hf
        simp [idle] at hf
    | refresh g =>
      cases r with
      | panic message =>
        simp only [Worker.answered, List.mem_singleton] at hf
        subst hf
        cases concludes
      | arrival a =>
        rw [(refreshCode_answered g limit a).1.concludes f hf] at concludes
        cases concludes
  | send | beginRefresh | wake | take | close => simp [idle] at hf
  | wakeStopped | reject | finish =>
    simp only [List.mem_singleton] at hf
    subst hf
    cases concludes

/-- A task of a worker after a turn was one before, or it begins a refresh, or it is a job that has
gone on or that the worker takes from its queue while it is live. -/
theorem TurnStep.source (step : TurnStep limit s x k y es) (here : task ∈ y.tasks) :
    task ∈ x.tasks ∨ task = .refresh .info ∧ x.refreshing = .asleep ∨ task.isRefresh = false ∧
      ((∃ task ∈ x.tasks, task.isRefresh = false) ∨ x.phase = .live ∧ x.queue ≠ []) := by
  have left {task' : Task} {r : Ready} {rest : List (Task × Ready)}
      (first : x.runnable = (task', r) :: rest)
      (here : task ∈ ({ x with runnable := rest } : Worker).tasks) : task ∈ x.tasks := by
    simp only [Worker.tasks, List.mem_append, first, List.map_cons, List.mem_cons] at here ⊢
    tauto
  have stays {task' : Task} {r : Ready} {rest : List (Task × Ready)}
      (first : x.runnable = (task', r) :: rest) : task' ∈ x.tasks := by simp [Worker.tasks, first]
  have asked {z : Worker} {task' : Task} {r : Ready}
      (here : task ∈ ({ z with runnable := z.runnable ++ [(task', r)] } : Worker).tasks) :
      task ∈ z.tasks ∨ task = task' := by
    simp only [Worker.tasks, List.map_append, List.map_cons, List.map_nil, List.mem_append,
      List.mem_singleton] at here ⊢
    tauto
  cases step with
  | pollStopped task' r rest stopped first =>
    obtain ⟨q, fs, e⟩ := ({ x with runnable := rest } : Worker).cancelled_eq task'
    rw [e] at here
    exact .inl (left first here)
  | send task' rest going first =>
    left
    simp only [Worker.tasks, List.mem_append, first, List.map_cons, List.mem_cons] at here ⊢
    tauto
  | beginJob j p rest going first =>
    obtain ⟨r, e⟩ | e := ({ x with runnable := rest } : Worker).advanced_cases j p
    · rw [e] at here
      exact .inl (left first here)
    · rw [e] at here
      obtain old | rfl := asked (z := { x with runnable := rest }) here
      · exact .inl (left first old)
      · exact .inr (.inr ⟨rfl, .inl ⟨_, stays first, rfl⟩⟩)
  | beginRefresh g rest going first =>
    obtain old | rfl := asked (z := { x with runnable := rest }) here
    · exact .inl (left first old)
    · exact .inl (stays first)
  | answered task' r rest going first =>
    cases task' with
    | job j p =>
      obtain ⟨q, e⟩ | ⟨q, e⟩ :=
        ({ x with runnable := rest } : Worker).answered_job_cases limit j p r
      · rw [e] at here
        exact .inl (left first here)
      · rw [e] at here
        obtain old | rfl := asked (z := { x with runnable := rest }) here
        · exact .inl (left first old)
        · exact .inr (.inr ⟨rfl, .inl ⟨_, stays first, rfl⟩⟩)
    | refresh g =>
      have same : (({ x with runnable := rest } : Worker).answered limit (.refresh g) r).tasks =
          ({ x with runnable := rest } : Worker).tasks := by cases r <;> rfl
      rw [same] at here
      exact .inl (left first here)
  | interrupt i task' stopped there =>
    obtain ⟨q, fs, e⟩ := ({ x with waiting := x.waiting.eraseIdx i } : Worker).cancelled_eq task'
    rw [e] at here
    left
    rcases List.mem_append.mp here with ready | waits
    · exact List.mem_append_left _ ready
    · exact List.mem_append_right _ (List.mem_of_mem_eraseIdx waits)
  | take j rest live queue =>
    obtain old | rfl := asked (z := { x with queue := rest }) here
    · exact .inl old
    · exact .inr (.inr ⟨rfl, .inr ⟨live, by simp [queue]⟩⟩)
  | wake asleep =>
    obtain old | rfl := asked (z := { x with refreshing := .busy }) here
    · exact .inl old
    · exact .inr (.inl ⟨rfl, asleep⟩)
  | wakeStopped | close | reject | finish => exact .inl here

/-- A refresh that is under way after a frame of a course was so before, or the frame asks for
it. -/
theorem OwnStep.asks {g : Stage} (own : OwnStep w x f x' c chain fs)
    (asked : .refresh g ∈ x'.tasks) : .refresh g ∈ x.tasks ∨ f = .connect ∧ g = .info ∨
      (∃ due, f = .askHeader due) ∧ g = .header ∨
        f = .askPool ∧ g = .pool ⟨w.chain.header.hash, x.memory.known⟩ := by
  have fresh {h : Stage} (asked : .refresh g ∈
      ({ x with runnable := x.runnable ++ [(.refresh h, .send)] } : Worker).tasks) :
      .refresh g ∈ x.tasks ∨ g = h := by
    simp only [Worker.tasks, List.map_append, List.map_cons, List.map_nil, List.mem_append,
      List.mem_singleton, Task.refresh.injEq] at asked ⊢
    tauto
  cases own with
  | connect => exact (fresh asked).imp_right fun same => .inl ⟨rfl, same⟩
  | askHeader due => exact (fresh asked).imp_right fun same => .inr (.inl ⟨⟨due, rfl⟩, same⟩)
  | askPool => exact (fresh asked).imp_right fun same => .inr (.inr ⟨rfl, same⟩)
  | _ => exact .inl asked

theorem TurnStep.jobs (step : TurnStep limit s x k y es) (here : task ∈ y.tasks)
    (job : task.isRefresh = false) :
    (∃ task ∈ x.tasks, task.isRefresh = false) ∨ x.phase = .live := by
  obtain old | ⟨rfl, -⟩ | ⟨-, taken⟩ := step.source here
  · exact .inl ⟨task, old, job⟩
  · cases job
  · exact taken.imp_right And.left

theorem OwnStep.tasks (own : OwnStep w x f x' c chain fs) (here : task ∈ x'.tasks) :
    task ∈ x.tasks ∨ task.isRefresh = true := by
  cases own with
  | connect | askHeader | askPool =>
    simp only [Worker.tasks, List.map_append, List.map_cons, List.map_nil, List.mem_append,
      List.mem_singleton] at here ⊢
    obtain (ready | rfl) | waits := here
    · exact .inl (.inl ready)
    · exact .inr rfl
    · exact .inl (.inr waits)
  | _ => exact .inl here

namespace Worker.Serving

theorem new (cb : Callback) : (Worker.new cb).Serving :=
  ⟨by simp [Worker.new, Worker.tasks], by simp [Worker.new, Frame.concludes]⟩

theorem silent_rest (h : x.Serving) (hf : x.frames = f :: rest) :
    ∀ g ∈ rest, g.concludes = false := by
  intro g hg
  by_contra concludes
  have := (h.alone g (by rw [hf]; exact List.mem_cons_of_mem _ hg) (by simpa using concludes)).1
  rw [hf] at this
  obtain ⟨-, rfl⟩ := List.cons.inj this
  cases hg

/-- Whatever a step means to a worker, its results stay alone. -/
theorem step (h : x.Serving) (step : WorkerStep w m s x y) : y.Serving := by
  -- after a frame no result is left
  have ran {z : Worker} (silent : ∀ g ∈ z.frames, g.concludes = false)
      (jobs : ∀ task ∈ z.tasks, task.isRefresh = false → z.phase ≠ .opening) : z.Serving := by
    refine ⟨jobs, fun g hg concludes => ?_⟩
    rw [silent g hg] at concludes
    cases concludes
  have silentRest {f : Frame} {fs rest : List Frame} (top : ∀ g ∈ fs, g.concludes = false)
      (hf : x.frames = f :: rest) : ∀ g ∈ fs ++ rest, g.concludes = false := by
    intro g hg
    rcases List.mem_append.mp hg with hg | hg
    · exact top g hg
    · exact h.silent_rest hf g hg
  cases step with
  | others y away touched =>
    constructor
    · rw [touched.tasks, touched.phase]
      exact h.jobs
    · rw [touched.frames, touched.phase]
      exact h.alone
  | foreign f rest fs u y here hf step notOwn touched =>
    refine ran (silentRest step.concludes hf) ?_
    change ∀ task ∈ y.tasks, _ → y.phase ≠ _
    rw [touched.tasks, touched.phase]
    exact h.jobs
  | own f rest fs x' c chain here hf step =>
    refine ran (silentRest step.concludes hf) fun task inTasks job => ?_
    have before : task ∈ x.tasks := (step.tasks inTasks).resolve_right (by simp [job])
    cases step with
    | goLive => simp
    | _ => exact h.jobs task before job
  | markFailed rest here hf => exact ran (h.silent_rest hf) h.jobs
  | leave rest here hf => exact ran (h.silent_rest hf) fun _ _ _ => by simp
  | reply i r task here there fits =>
    exact ⟨fun task' inTasks job => h.jobs task' (mem_tasks_of_reply there inTasks) job, h.alone⟩
  | turn k _ es here idle stays step =>
    have phase : y.phase = .opening → x.phase = .opening := by
      obtain same | ⟨-, closed, -⟩ := step.same.2.2.2
      · exact fun opening => same ▸ opening
      · simp [closed]
    constructor
    · intro task inTasks job opening
      obtain ⟨task', before, isJob⟩ | live := step.jobs inTasks job
      · exact h.jobs task' before isJob (phase opening)
      · rw [phase opening] at live
        cases live
    · intro f hf concludes
      obtain ⟨alone, going, same, task, inTasks, job⟩ := step.concludes idle hf concludes
      have serves := h.jobs task inTasks job
      refine ⟨alone, ?_⟩
      rw [same]
      cases hp : x.phase with
      | live => exact .inl rfl
      | closed => exact .inr rfl
      | opening => exact absurd hp serves
      | ended => exact absurd hp stays

end Worker.Serving

/-- Only workers bring results, and those that do serve. -/
structure World.Serving (w : World) : Prop where
  workers : ∀ (s : Nat) (x : Worker), w.workers[s]? = some x → x.Serving
  callers : ∀ n, ∀ f ∈ w.frames (.caller n), f.concludes = false

namespace World.Serving

theorem of_untouched (h : w.Untouched) : w.Serving := by
  constructor
  · intro s x hx
    rw [h.workers] at hx
    cases hx
  · intro n f hf
    rw [h.frames] at hf
    cases hf

theorem step (h : w.Serving) (step : WorldStep w m v) : v.Serving := by
  constructor
  · intro s y hy
    obtain ⟨x, hx, worker⟩ | ⟨-, t, cb, rest, -, -, rfl⟩ := step.cameFrom hy
    · exact (h.workers s x hx).step worker
    · exact .new cb
  · intro n f hf
    have before := h.callers n
    have thread := step.threadStep (.caller n)
    generalize w.frames (.caller n) = code, v.frames (.caller n) = code' at before thread hf
    cases thread with
    | same => exact before f hf
    | run g rest fs u here code step =>
      rcases List.mem_append.mp hf with hf | hf
      · exact step.concludes f hf
      · exact before f (List.mem_cons_of_mem _ hf)
    | call | release =>
      rw [List.mem_singleton.mp hf]
      rfl
    | turn s k x x' es here => cases here
    | started r cb rest here => cases here

theorem of_reaches (first : w.Untouched) (h : w.Reaches v) : v.Serving :=
  h.keeps (of_untouched first) fun _ _ _ h => h.step

/-- A result is brought by a worker that serves, and it is all its code. -/
theorem exists_worker (h : w.Serving) (code : w.frames t = f :: rest)
    (concludes : f.concludes = true) : ∃ s x, t = .worker s ∧ w.workers[s]? = some x ∧
      x.frames = [f] ∧ (x.phase = .live ∨ x.phase = .closed) := by
  cases t with
  | caller n =>
    rw [h.callers n f (by rw [code]; exact List.mem_cons_self ..)] at concludes
    cases concludes
  | worker s =>
    obtain ⟨x, hx, hf⟩ := worker_of_frames code
    obtain ⟨alone, serves⟩ :=
      (h.workers s x hx).alone f (by rw [hf]; exact List.mem_cons_self ..) concludes
    exact ⟨s, x, rfl, hx, alone, serves⟩

end World.Serving

end Results

end RemoteNode.Session
