import RemoteNode.Proofs.Session.Heights

/-! What operations leave alone. No step of an operation changes what is known of the chain, the
connection or anything that a worker does besides its jobs; only a refresh writes to what is known,
and only the worker itself to its memory. -/

namespace RemoteNode.Session

/-- The frame asks for an operation, brings it to a worker, keeps its result or calls it back. -/
def Frame.operates : Frame → Bool
  | script _ (.operate _ _ _ :: _) | dispatch _ | enqueue _ _ | conclude _ _
  | complete _ (.operation _ _) => true
  | _ => false

/-- The turn is one of an operation: a job goes on or is ended, or one is taken or rejected. -/
def Worker.Operates (x : Worker) : Turn → Prop
  | .poll => ∃ task r rest, x.runnable = (task, r) :: rest ∧ task.isRefresh = false
  | .interrupt i => ∃ task, x.waiting[i]? = some task ∧ task.isRefresh = false
  | .take | .reject => True
  | .wake | .close | .finish => False

/-- The move is one of an operation: it is asked for, brought to a worker or called back, its worker
takes a turn for it, or a reply comes for it. -/
def World.Operates (w : World) : Move → Prop
  | .run t => ∃ f rest, w.frames t = f :: rest ∧ f.operates = true
  | .call _ a => ∃ label o after, a = .operate label o after
  | .release _ => False
  | .reply s i _ => ∃ x task, w.workers[s]? = some x ∧ x.waiting[i]? = some task ∧
    task.isRefresh = false
  | .turn s k => ∃ x, w.workers[s]? = some x ∧ x.Operates k

/-- The refreshes that a worker has under way. -/
def Worker.polls (x : Worker) : List Task := x.tasks.filter Task.isRefresh

/-- A worker goes on with everything but its jobs as if nothing had been done. -/
structure Worker.Spared (x y : Worker) : Prop where
  memory : y.memory = x.memory
  phase : y.phase = x.phase
  refreshing : y.refreshing = x.refreshing
  stopped : y.stopped = x.stopped
  polls : y.polls = x.polls
  code : ownCode y.frames = ownCode x.frames

/-- What is known of the chain, the connection and all that workers do besides their jobs are left
alone. -/
structure World.Spares (w v : World) : Prop where
  chain : v.chain = w.chain
  connection : v.connection = w.connection
  length : v.workers.length = w.workers.length
  workers : ∀ (s : Nat) (x y : Worker), w.workers[s]? = some x → v.workers[s]? = some y →
    x.Spared y

section Operating
variable {w u v : World} {m : Move} {t : Thread} {s i : Nat} {x y : Worker} {f : Frame}
  {fs rest : List Frame} {limit : Exchange.Timeout} {es : List Entry} {task : Task} {r : Ready}

namespace Worker

theorem Spared.refl (x : Worker) : x.Spared x := ⟨rfl, rfl, rfl, rfl, rfl, rfl⟩

/-- A job that is no longer ready, or is once more, is no refresh. -/
theorem polls_popped {rest : List (Task × Ready)} (ready : x.runnable = (task, r) :: rest)
    (job : task.isRefresh = false) : ({ x with runnable := rest } : Worker).polls = x.polls := by
  simp [Worker.polls, Worker.tasks, ready, job]

theorem polls_concat (x : Worker) (job : task.isRefresh = false) :
    ({ x with runnable := x.runnable ++ [(task, r)] } : Worker).polls = x.polls := by
  simp [Worker.polls, Worker.tasks, job]

theorem polls_waiting (x : Worker) (job : task.isRefresh = false) :
    ({ x with waiting := x.waiting ++ [task] } : Worker).polls = x.polls := by
  simp [Worker.polls, Worker.tasks, job]

/-- Neither is one whose request is no longer on its way. -/
theorem polls_erased (there : x.waiting[i]? = some task) (job : task.isRefresh = false) :
    ({ x with waiting := x.waiting.eraseIdx i } : Worker).polls = x.polls := by
  simp only [Worker.polls, Worker.tasks, List.filter_append]
  congr 1
  generalize x.waiting = waiting at there
  induction waiting generalizing i with
  | nil => rfl
  | cons a as ih =>
    cases i with
    | zero =>
      obtain rfl : a = task := by simpa using there
      simp [job]
    | succ i =>
      simp only [List.eraseIdx_cons_succ, List.filter_cons]
      rw [ih (by simpa using there)]

end Worker

/-- Code that starts and is no part of the course spares everything else. -/
theorem Worker.Spared.starts (spared : x.Spared y) (code : ownCode x.frames = [])
    (foreign : f.isOwn = false) : x.Spared { y with frames := [f] } := by
  refine ⟨spared.memory, spared.phase, spared.refreshing, spared.stopped, spared.polls, ?_⟩
  rw [code, ownCode_foreign foreign, ownCode_nil]

theorem Worker.Spared.cancelled (spared : x.Spared y) (code : ownCode x.frames = [])
    (job : task.isRefresh = false) : x.Spared (y.cancelled task) := by
  cases task with
  | refresh g => cases job
  | job j p => exact spared.starts code rfl

theorem Worker.Spared.advanced (spared : x.Spared y) (code : ownCode x.frames = []) (j : Job)
    (p : Procedure j.operation.Result) : x.Spared (y.advanced j p) := by
  cases p with
  | done result => exact spared.starts code rfl
  | ask c q next =>
    exact ⟨spared.memory, spared.phase, spared.refreshing, spared.stopped,
      (y.polls_concat rfl).trans spared.polls, spared.code⟩

theorem Worker.Spared.answered (spared : x.Spared y) (code : ownCode x.frames = []) (j : Job)
    (p : Procedure j.operation.Result) (r : Reply) :
    x.Spared (y.answered limit (.job j p) r) := by
  cases r with
  | panic message => cases p <;> exact spared.starts code rfl
  | arrival a =>
    cases p with
    | done result => exact spared.starts code rfl
    | ask c q next =>
      simp only [Worker.answered]
      split
      · exact spared.advanced code j _
      · exact spared.starts code rfl

/-- An idle worker that takes a turn for an operation spares everything else. -/
theorem TurnStep.spares {k : Turn} (step : TurnStep limit s x k y es) (idle : x.frames = [])
    (operates : x.Operates k) : x.Spared y := by
  have code : ownCode x.frames = [] := by rw [idle, ownCode_nil]
  have popped {task : Task} {r : Ready} {rest : List (Task × Ready)}
      (ready : x.runnable = (task, r) :: rest) (job : task.isRefresh = false) :
      x.Spared { x with runnable := rest } :=
    ⟨rfl, rfl, rfl, rfl, Worker.polls_popped ready job, rfl⟩
  -- the task that goes on is the job
  have isJob {task : Task} {r : Ready} {rest : List (Task × Ready)}
      (ready : x.runnable = (task, r) :: rest) (operates : x.Operates .poll) :
      task.isRefresh = false := by
    obtain ⟨task', r', rest', same, job⟩ := operates
    rw [ready] at same
    cases same
    exact job
  cases step with
  | pollStopped task r rest stopped ready =>
    have job := isJob ready operates
    exact (popped ready job).cancelled code job
  | interrupt i task stopped there =>
    obtain ⟨task', same, job⟩ := operates
    rw [there] at same
    cases same
    have spared : x.Spared { x with waiting := x.waiting.eraseIdx i } :=
      ⟨rfl, rfl, rfl, rfl, Worker.polls_erased there job, rfl⟩
    exact spared.cancelled code job
  | send task rest going ready =>
    have job := isJob ready operates
    refine ⟨rfl, rfl, rfl, rfl, ?_, rfl⟩
    exact (({ x with runnable := rest } : Worker).polls_waiting job).trans
      (Worker.polls_popped ready job)
  | beginJob j p rest going ready => exact (popped ready rfl).advanced code j p
  | beginRefresh g rest going ready => cases isJob ready operates
  | answered task r rest going ready =>
    have job := isJob ready operates
    cases task with
    | refresh g => cases job
    | job j p => exact (popped ready rfl).answered code j p r
  | take j rest live queue =>
    exact ⟨rfl, rfl, rfl, rfl, ({ x with queue := rest } : Worker).polls_concat rfl, rfl⟩
  | reject j rest closed queue => exact ⟨rfl, rfl, rfl, rfl, rfl, code.symm⟩
  | wake | wakeStopped | close | finish => exact operates.elim

theorem foreign_of_operates (operates : f.operates = true) : f.isOwn = false := by
  cases f <;> first | rfl | cases operates

/-- A frame of an operation spares everything that workers do besides their jobs. -/
theorem FrameStep.spares (ran : FrameStep w t f u fs) (operates : f.operates = true) :
    w.Spares u := by
  have same (u : World) (chain : u.chain = w.chain) (connection : u.connection = w.connection)
      (workers : u.workers = w.workers) : w.Spares u := by
    refine ⟨chain, connection, by rw [workers], fun s x y hx hy => ?_⟩
    rw [workers, hx] at hy
    cases hy
    exact .refl x
  cases ran with
  | enqueue r j z hz isOpen =>
    refine ⟨rfl, rfl, by simp, fun s x y hx hy => ?_⟩
    simp only [List.getElem?_modify, hx, Option.map_eq_map, Option.map_some,
      Option.some.injEq] at hy
    rw [← hy]
    split
    · exact ⟨rfl, rfl, rfl, rfl, rfl, rfl⟩
    · exact .refl x
  | own f s x x' c chain fs isHere hx own =>
    have foreign := foreign_of_operates operates
    rw [own.isOwn] at foreign
    cases foreign
  | stray f own =>
    rw [foreign_of_operates operates] at own
    cases own
  | unreachable | operate | dispatch | refuse | tooLate | conclude | complete =>
    exact same _ rfl rfl rfl
  | _ => cases operates

/-- Code that is no part of its course leaves a worker on its course. -/
theorem WorkerStep.course_spared (worker : WorkerStep w (.run t) s x y)
    (foreign : ∀ g gs, t = .worker s → x.frames = g :: gs → g.isOwn = false) :
    ownCode y.frames = ownCode x.frames := by
  cases worker with
  | others y away touched => rw [touched.frames]
  | foreign g gs fs u y here code ran notOwn touched =>
    rw [ran.ownCode_eq notOwn, code]
  | own g gs fs x' c chain here code own =>
    cases here
    have notOwn := foreign g gs rfl code
    rw [own.isOwn] at notOwn
    cases notOwn
  | markFailed gs here code | leave gs here code =>
    cases here
    cases foreign _ gs rfl code
  | reply i r task here | turn k y es here => cases here

/-- What is put in the place of a worker leaves the others alone. -/
theorem World.Spares.of_set (hx : w.workers[s]? = some x) (spared : x.Spared y)
    (chain : v.chain = w.chain) (connection : v.connection = w.connection)
    (workers : v.workers = w.workers.set s y) : w.Spares v := by
  refine ⟨chain, connection, by rw [workers]; simp, fun r z z' hz hz' => ?_⟩
  rw [workers] at hz'
  by_cases hr : s = r
  · subst hr
    rw [hx] at hz
    cases hz
    rw [List.getElem?_set_self (List.getElem?_eq_some_iff.mp hx).1] at hz'
    cases hz'
    exact spared
  · rw [List.getElem?_set_ne hr, hz] at hz'
    cases hz'
    exact .refl z

/-- A thread that runs a frame of an operation spares everything that workers do besides their
jobs. -/
theorem WorldStep.spares_run (step : WorldStep w (.run t) v) (code : w.frames t = f :: rest)
    (operates : f.operates = true) : w.Spares v := by
  obtain ⟨f', rest', fs, u, code', ran, rfl, -⟩ := id step.ran
  rw [code] at code'
  obtain ⟨rfl, rfl⟩ := List.cons.inj code'
  have spares := ran.spares operates
  refine ⟨(chain_setFrames ..).trans spares.chain,
    (connection_setFrames ..).trans spares.connection, ?_, fun s x y hx hy => ?_⟩
  · rw [← spares.length]
    cases t <;> simp
  · obtain ⟨y', hy', worker⟩ := step.workerStep hx
    rw [hy] at hy'
    cases hy'
    have course := worker.course_spared fun g gs here hg => by
      subst here
      rw [frames_worker hx, hg] at code
      cases code
      exact foreign_of_operates operates
    obtain ⟨z, hz, e⟩ := worker_of_setFrames hy
    obtain ⟨memory, phase, refreshing, stopped, polls, -⟩ := spares.workers s x z hx hz
    rw [e] at course ⊢
    exact ⟨memory, phase, refreshing, stopped, polls, course⟩

/-- No step of an operation changes what is known of the chain, the connection or anything that a
worker does besides its jobs. -/
theorem WorldStep.spares (step : WorldStep w m v) (operates : w.Operates m) : w.Spares v := by
  cases m with
  | run t =>
    obtain ⟨f, rest, code, operates⟩ := operates
    exact step.spares_run code operates
  | call n a =>
    cases step
    refine ⟨rfl, rfl, rfl, fun s x y hx hy => ?_⟩
    rw [hx] at hy
    cases hy
    exact .refl x
  | release n => exact operates.elim
  | reply s i r =>
    cases step with
    | reply s i r x task hx there fits =>
      obtain ⟨z, task', hz, there', job⟩ := operates
      rw [hx] at hz
      cases hz
      rw [there] at there'
      cases there'
      have spared : x.Spared { x with
          waiting := x.waiting.eraseIdx i
          runnable := x.runnable ++ [(task, .answered r)] } :=
        ⟨rfl, rfl, rfl, rfl, (({ x with waiting := x.waiting.eraseIdx i } : Worker).polls_concat
          job).trans (Worker.polls_erased there job), rfl⟩
      exact .of_set hx spared rfl rfl rfl
  | turn s k =>
    cases step with
    | turn s k x y es hx idle stays turn =>
      obtain ⟨z, hz, operates⟩ := operates
      rw [hx] at hz
      cases hz
      exact .of_set hx (turn.spares idle operates) rfl rfl rfl

/-- Only what a refresh has learnt, a failure to connect and a shutdown change what is known of the
chain. -/
theorem WorldStep.chain_writer (step : WorldStep w m v) (changed : v.chain ≠ w.chain) :
    ∃ t f rest, m = .run t ∧ w.frames t = f :: rest ∧ (f.writes = true ∨ f = .forgetChain) := by
  cases step.chainStep with
  | keep same => exact absurd same changed
  | forget t rest here code now => exact ⟨t, _, rest, here, code, .inr rfl⟩
  | write s x x' f rest fs c here hx code writes own =>
    exact ⟨_, f, rest, here, (frames_worker hx).trans code, .inl writes⟩

/-- Only the changes of the pool that a refresh has learnt change the transactions that a worker
knows. -/
theorem WorldStep.known_writer (step : WorldStep w m v) (hx : w.workers[s]? = some x)
    (hy : v.workers[s]? = some y) (changed : y.memory.known ≠ x.memory.known) :
    ∃ c rest, m = .run (.worker s) ∧ x.frames = .notePool c :: rest := by
  obtain ⟨y', hy', worker⟩ := step.workerStep hx
  rw [hy] at hy'
  cases hy'
  cases worker with
  | others y away touched => exact absurd (congrArg Memory.known touched.memory) changed
  | foreign f rest fs u y here code ran notOwn touched =>
    exact absurd (congrArg Memory.known touched.memory) changed
  | own f rest fs x' c chain here code own =>
    cases own with
    | notePool c | poolOutdated c => exact ⟨c, rest, here, code⟩
    | _ => exact absurd rfl changed
  | markFailed | leave | reply => exact absurd rfl changed
  | turn k y es here idle stays turn =>
    exact absurd (congrArg Memory.known turn.same.2.2.1) changed

end Operating

end RemoteNode.Session
