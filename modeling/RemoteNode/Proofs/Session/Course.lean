import RemoteNode.Proofs.Session.Threads

/-! The course of a worker: which frames of its own are left, how many refreshes it has under way
and how far it is always fit together, whatever other code its thread runs in between. The state of
the connection that a worker stands for, and whether it still owes its callback an outcome, are
read off its course. -/

namespace RemoteNode.Session

/-- The frames of its own course that a thread has still to run. -/
def ownCode (fs : List Frame) : List Frame := fs.filter Frame.isOwn

@[simp] theorem ownCode_nil : ownCode [] = [] := rfl

@[simp] theorem ownCode_append (fs gs : List Frame) :
    ownCode (fs ++ gs) = ownCode fs ++ ownCode gs := List.filter_append ..

theorem ownCode_own {f : Frame} (h : f.isOwn = true) (fs : List Frame) :
    ownCode (f :: fs) = f :: ownCode fs := List.filter_cons_of_pos h

theorem ownCode_foreign {f : Frame} (h : f.isOwn = false) (fs : List Frame) :
    ownCode (f :: fs) = ownCode fs := List.filter_cons_of_neg (by simp [h])

theorem ownCode_eq_nil {fs : List Frame} (h : ∀ f ∈ fs, f.isOwn = false) : ownCode fs = [] := by
  rw [ownCode, List.filter_eq_nil_iff]
  intro f hf
  simp [h f hf]

/-- Code that is no part of its course leaves a thread what it has left of its own. -/
theorem FrameStep.ownCode_eq {w u : World} {t : Thread} {f : Frame} {fs : List Frame}
    (ran : FrameStep w t f u fs) (foreign : f.isOwn = false) (rest : List Frame) :
    ownCode (fs ++ rest) = ownCode (f :: rest) := by
  rw [ownCode_append, ownCode_eq_nil (ran.foreign foreign), ownCode_foreign foreign,
    List.nil_append]

theorem mem_ownCode {f : Frame} {fs : List Frame} (h : f.isOwn = true) :
    f ∈ ownCode fs ↔ f ∈ fs := by
  simp [ownCode, List.mem_filter, h]

/-- The task is a refresh. -/
def Task.isRefresh : Task → Bool
  | refresh _ => true
  | job _ _ => false

/-- The tasks that a worker has taken. -/
def Worker.tasks (x : Worker) : List Task := x.runnable.map (·.1) ++ x.waiting

/-- The number of refreshes that a worker has under way. -/
def Worker.refreshes (x : Worker) : Nat := x.tasks.countP Task.isRefresh

/-- What is left of a refresh after an answer. -/
inductive RefreshCode : List Frame → Prop
  | noteFee (i : Command.NodeInfo) :
    RefreshCode [.noteFee i, .notePeers i, .noteKnown i, .noteHeight i]
  | notePeers (i : Command.NodeInfo) : RefreshCode [.notePeers i, .noteKnown i, .noteHeight i]
  | noteKnown (i : Command.NodeInfo) : RefreshCode [.noteKnown i, .noteHeight i]
  | noteHeight (i : Command.NodeInfo) : RefreshCode [.noteHeight i]
  | setConnected (b due : Bool) : RefreshCode [.setConnected b, .askHeader due]
  | askHeader (due : Bool) : RefreshCode [.askHeader due]
  | noteHeader (h : Chain.BlockHeader) : RefreshCode [.noteHeader h, .askPool]
  | askPool : RefreshCode [.askPool]
  | notePool (c : Command.PoolChanges) : RefreshCode [.notePool c]
  | lost (e : Failure) : RefreshCode [.setConnected false, .refreshed (.error e)]
  | refreshed (r : Except Failure Unit) : RefreshCode [.refreshed r]

/-- How far a worker is, what its refreshing task does, how many refreshes are under way and which
frames of its own are left. -/
inductive Course : Phase → Refreshing → Nat → List Frame → Prop
  | connect : Course .opening .busy 0 [.connect]
  | refresh (p : Phase) (fs : List Frame) (stays : p ≠ .ended) (code : RefreshCode fs) :
    Course p .busy 0 fs
  | asked (p : Phase) (stays : p ≠ .ended) : Course p .busy 1 []
  | mark : Course .opening .busy 0 [.markInitialized]
  | goLive : Course .opening .busy 0 [.goLive]
  | lost : Course .opening .busy 0 [.setConnected false, .markFailed, .leave]
  | failed : Course .opening .busy 0 [.markFailed, .leave]
  | refused : Course .opening .busy 0 [.setConnected false, .leave]
  | leave : Course .opening .busy 0 [.leave]
  | asleep (p : Phase) (h : p = .live ∨ p = .closed) : Course p .asleep 0 []
  | hush (p : Phase) (h : p = .live ∨ p = .closed) : Course p .over 0 [.setConnected false]
  | spent (p : Phase) (h : p = .live ∨ p = .closed) : Course p .over 0 []
  | finish : Course .closed .over 0 [.leave]
  | ended : Course .ended .over 0 []

/-- The frame decides whether a worker stays. -/
def Frame.decides : Frame → Bool
  | goLive | leave => true
  | _ => false

/-- Only the own code of a worker decides whether it stays. -/
theorem Frame.decides_of_foreign {f : Frame} (foreign : f.isOwn = false) : f.decides = false := by
  cases f <;> first | rfl | cases foreign

theorem FrameStep.decides {w u : World} {t : Thread} {f : Frame} {fs : List Frame}
    (step : FrameStep w t f u fs) (foreign : f.isOwn = false) : fs.any Frame.decides = false := by
  rw [List.any_eq_false]
  intro g there
  rw [Frame.decides_of_foreign (step.foreign foreign g there)]
  exact Bool.false_ne_true

/-- A worker is on its course. -/
structure Worker.OnCourse (x : Worker) : Prop where
  course : Course x.phase x.refreshing x.refreshes (ownCode x.frames)
  /-- Its own code is below all other code. -/
  bottom : ∀ f ∈ x.frames.getLast?, f.isOwn = false → ownCode x.frames = []
  closed : x.phase = .closed → x.stopped = true

section Refreshes
variable {s i : Nat} {x y : Worker}

theorem Worker.Touched.tasks (h : x.Touched y) : y.tasks = x.tasks := by
  rw [Worker.tasks, Worker.tasks, h.runnable, h.waiting]

theorem Worker.Touched.refreshes (h : x.Touched y) : y.refreshes = x.refreshes := by
  rw [Worker.refreshes, Worker.refreshes, h.tasks]

theorem mem_tasks_of_reply {task a : Task} {r : Ready} (h : x.waiting[i]? = some task)
    (ha : a ∈ ({ x with
      waiting := x.waiting.eraseIdx i, runnable := x.runnable ++ [(task, r)] } : Worker).tasks) :
    a ∈ x.tasks := by
  simp only [Worker.tasks, List.map_append, List.map_cons, List.map_nil, List.mem_append,
    List.mem_singleton] at ha
  rcases ha with (ready | rfl) | waits
  · exact List.mem_append_left _ ready
  · exact List.mem_append_right _ (List.mem_of_getElem? h)
  · exact List.mem_append_right _ (List.mem_of_mem_eraseIdx waits)

theorem countP_eraseIdx {α : Type} (p : α → Bool) {l : List α} {a : α} (h : l[i]? = some a) :
    (l.eraseIdx i).countP p + (if p a then 1 else 0) = l.countP p := by
  induction l generalizing i with
  | nil => simp at h
  | cons b l ih =>
    cases i with
    | zero =>
      simp only [List.getElem?_cons_zero, Option.some.injEq] at h
      subst h
      simp [List.countP_cons]
    | succ i =>
      simp only [List.getElem?_cons_succ] at h
      have := ih h
      simp only [List.eraseIdx_cons_succ, List.countP_cons]
      omega

end Refreshes

section Course
variable {w : World} {s : Nat} {x x' y : Worker} {f : Frame} {fs rest : List Frame}
  {c : Connection} {chain : ChainView} {limit : Exchange.Timeout} {k : Turn} {es : List Entry}

/-- The connectivity is taken on the way. -/
theorem Course.setConnected {p : Phase} {r : Refreshing} {n : Nat} {b : Bool} {o : List Frame}
    (h : Course p r n (.setConnected b :: o)) : Course p r n o := by
  cases h with
  | refresh p fs stays code =>
    cases code with
    | setConnected b due => exact .refresh _ _ stays (.askHeader due)
    | lost e => exact .refresh _ _ stays (.refreshed _)
  | lost => exact .failed
  | refused => exact .leave
  | hush p h => exact .spent p h

theorem refreshCode_answered (g : Stage) (limit : Exchange.Timeout)
    (a : Exchange.Arrival Exchange.Response) :
    RefreshCode (World.refreshAnswered g limit a) ∧
      ownCode (World.refreshAnswered g limit a) = World.refreshAnswered g limit a := by
  cases g with
  | info =>
    simp only [World.refreshAnswered]
    split
    · exact ⟨.noteFee _, rfl⟩
    · split
      · exact ⟨.lost _, rfl⟩
      · exact ⟨.refreshed _, rfl⟩
  | header =>
    simp only [World.refreshAnswered]
    split
    · exact ⟨.noteHeader _, rfl⟩
    · exact ⟨.refreshed _, rfl⟩
  | pool view =>
    simp only [World.refreshAnswered]
    split
    · exact ⟨.notePool _, rfl⟩
    · exact ⟨.refreshed _, rfl⟩

theorem refreshes_asking (x : Worker) (g : Stage) (r : Ready) :
    ({ x with runnable := x.runnable ++ [(.refresh g, r)] } : Worker).refreshes =
      x.refreshes + 1 := by
  simp only [Worker.refreshes, Worker.tasks, List.map_append, List.map_cons, List.map_nil,
    List.countP_append, List.countP_cons, List.countP_nil, Task.isRefresh, if_true]
  omega

@[simp] theorem refreshes_memory (x : Worker) (m : Memory) :
    ({ x with memory := m } : Worker).refreshes = x.refreshes := rfl

@[simp] theorem refreshes_frames (x : Worker) (fs : List Frame) :
    ({ x with frames := fs } : Worker).refreshes = x.refreshes := rfl

@[simp] theorem refreshes_phase (x : Worker) (p : Phase) (r : Refreshing) :
    ({ x with phase := p, refreshing := r } : Worker).refreshes = x.refreshes := rfl

@[simp] theorem refreshes_refreshing (x : Worker) (r : Refreshing) :
    ({ x with refreshing := r } : Worker).refreshes = x.refreshes := rfl

/-- In a refresh, a frame of its own brings a worker to the next one, to a request or to the end. -/
theorem RefreshCode.own {o : List Frame} (code : RefreshCode (f :: o))
    (step : OwnStep w x f x' c chain fs) (stays : x.phase ≠ .ended) (busy : x.refreshing = .busy)
    (none : x.refreshes = 0) : Course x'.phase x'.refreshing x'.refreshes (ownCode fs ++ o) := by
  cases code with
  | noteFee i =>
    cases step
    rw [busy, none]
    exact .refresh _ _ stays (.notePeers i)
  | notePeers i =>
    cases step
    rw [busy, none]
    split <;> exact .refresh _ _ stays (.noteKnown i)
  | noteKnown i =>
    cases step
    rw [busy, none]
    split <;> exact .refresh _ _ stays (.noteHeight i)
  | noteHeight i =>
    cases step
    rw [busy, none]
    exact .refresh _ _ stays (.setConnected _ _)
  | setConnected b due =>
    cases step with
    | stayConnected =>
      rw [busy, none]
      exact .refresh _ _ stays (.askHeader due)
    | setConnected =>
      rw [refreshes_memory, busy, none]
      exact .refresh _ _ stays (.askHeader due)
  | askHeader due =>
    cases step with
    | askHeader =>
      rw [refreshes_asking, busy, none]
      exact .asked _ stays
    | skipHeader =>
      rw [busy, none]
      exact .refresh _ _ stays .askPool
  | noteHeader b =>
    cases step
    rw [refreshes_memory, busy, none]
    split <;> exact .refresh _ _ stays .askPool
  | askPool =>
    cases step
    rw [refreshes_asking, busy, none]
    exact .asked _ stays
  | notePool a =>
    cases step with
    | notePool =>
      rw [refreshes_memory, busy, none]
      split <;> exact .refresh _ _ stays (.refreshed _)
    | poolOutdated =>
      rw [refreshes_memory, busy, none]
      exact .refresh _ _ stays (.refreshed _)
  | lost e =>
    cases step with
    | stayConnected =>
      rw [busy, none]
      exact .refresh _ _ stays (.refreshed _)
    | setConnected =>
      rw [refreshes_memory, busy, none]
      exact .refresh _ _ stays (.refreshed _)
  | refreshed r =>
    cases step with
    | opened opening =>
      rw [opening, busy, none]
      exact .mark
    | lost e opening =>
      rw [opening, busy, none]
      exact .lost
    | refreshed _ opened =>
      rw [refreshes_refreshing, none]
      refine .asleep _ ?_
      cases hp : x.phase <;> simp_all

/-- A frame of its own keeps a worker on its course. -/
theorem Course.own {o : List Frame} (step : OwnStep w x f x' c chain fs)
    (h : Course x.phase x.refreshing x.refreshes (f :: o)) :
    Course x'.phase x'.refreshing x'.refreshes (ownCode fs ++ o) := by
  generalize hp : x.phase = p, hr : x.refreshing = r, hn : x.refreshes = n at h
  have whole := h
  cases h with
  | refresh _ _ stays code => exact code.own step (hp ▸ stays) hr hn
  | connect =>
    cases step with
    | connect =>
      rw [refreshes_asking, hp, hr, hn]
      exact .asked _ (by simp)
    | noTransport =>
      rw [hp, hr, hn]
      exact .failed
  | mark =>
    cases step with
    | markInitialized =>
      rw [hp, hr, hn]
      exact .goLive
    | markRefused =>
      rw [hp, hr, hn]
      exact .refused
  | goLive =>
    cases step
    rw [refreshes_phase, hn]
    exact .asleep _ (.inl rfl)
  | lost | refused | hush =>
    cases step with
    | stayConnected =>
      rw [hp, hr, hn]
      exact whole.setConnected
    | setConnected =>
      rw [refreshes_memory, hp, hr, hn]
      exact whole.setConnected
  | failed | leave | finish => cases step

theorem Worker.advanced_cases (x : Worker) (j : Job) (p : Procedure j.operation.Result) :
    (∃ r, x.advanced j p = { x with frames := [.conclude j r] }) ∨
      x.advanced j p = { x with runnable := x.runnable ++ [(.job j p, .send)] } := by
  cases p with
  | done r => exact .inl ⟨r, rfl⟩
  | ask c r next => exact .inr rfl

theorem Worker.answered_job_cases (x : Worker) (limit : Exchange.Timeout) (j : Job)
    (p : Procedure j.operation.Result) (r : Reply) :
    (∃ result, x.answered limit (.job j p) r = { x with frames := [.conclude j result] }) ∨
      ∃ q, x.answered limit (.job j p) r =
        { x with runnable := x.runnable ++ [(.job j q, .send)] } := by
  cases r with
  | panic m => exact .inl ⟨_, by cases p <;> rfl⟩
  | arrival a =>
    cases p with
    | done r => exact .inl ⟨_, rfl⟩
    | ask c q next =>
      simp only [Worker.answered]
      split
      · rename_i content _
        obtain ⟨r, h⟩ | h := x.advanced_cases j (next content)
        · exact .inl ⟨r, h⟩
        · exact .inr ⟨_, h⟩
      · exact .inl ⟨_, rfl⟩

theorem refreshes_job (x : Worker) (j : Job) (p : Procedure j.operation.Result) (r : Ready) :
    ({ x with runnable := x.runnable ++ [(.job j p, r)] } : Worker).refreshes = x.refreshes := by
  simp only [Worker.refreshes, Worker.tasks, List.map_append, List.map_cons, List.map_nil,
    List.countP_append, List.countP_cons, List.countP_nil, Task.isRefresh]
  rfl

/-- The first ready task is one of those under way. -/
theorem refreshes_poll {task : Task} {r : Ready} {rest : List (Task × Ready)}
    (h : x.runnable = (task, r) :: rest) :
    x.refreshes =
      ({ x with runnable := rest } : Worker).refreshes + if task.isRefresh then 1 else 0 := by
  simp only [Worker.refreshes, Worker.tasks, h, List.map_cons, List.countP_append,
    List.countP_cons]
  omega

theorem refreshes_interrupt {i : Nat} {task : Task} (h : x.waiting[i]? = some task) :
    x.refreshes = ({ x with waiting := x.waiting.eraseIdx i } : Worker).refreshes +
      if task.isRefresh then 1 else 0 := by
  have := countP_eraseIdx Task.isRefresh h
  simp only [Worker.refreshes, Worker.tasks, List.countP_append]
  omega

/-- Without code of its own a worker awaits an answer, sleeps, refreshes no more or has ended. -/
theorem Course.idle {p : Phase} {r : Refreshing} {n : Nat} (h : Course p r n []) :
    (r = .busy ∧ n = 1 ∧ p ≠ .ended) ∨ (r = .asleep ∧ n = 0 ∧ (p = .live ∨ p = .closed)) ∨
      (r = .over ∧ n = 0 ∧ p ≠ .opening) := by
  cases h with
  | refresh p fs stays code => cases code
  | asked p stays => exact .inl ⟨rfl, rfl, stays⟩
  | asleep p h => exact .inr (.inl ⟨rfl, rfl, h⟩)
  | spent p h => exact .inr (.inr ⟨rfl, rfl, by rintro rfl; simp at h⟩)
  | ended => exact .inr (.inr ⟨rfl, rfl, by simp⟩)

/-- The code that an idle worker may start in a phase. -/
inductive TurnCode (p : Phase) : List Frame → Prop
  | nothing : TurnCode p []
  | refresh (fs : List Frame) (code : RefreshCode fs) (own : ownCode fs = fs) : TurnCode p fs
  | hush : TurnCode p [.setConnected false]
  | conclude (j : Job) (r : Except Failure j.operation.Result) : TurnCode p [.conclude j r]
  | reject (j : Job) : TurnCode p [.complete j.callback (j.outcome (.error .interrupted))]
  | leave (closed : p = .closed) : TurnCode p [.leave]

theorem TurnCode.cancelled (p : Phase) (x : Worker) (task : Task) :
    TurnCode p (x.cancelled task).frames := by
  cases task with
  | job j p => exact .reject j
  | refresh g =>
    rw [Worker.cancelled]
    split
    · exact .refresh _ (.refreshed _) rfl
    · exact .hush

/-- What an idle worker does starts no other code. -/
theorem TurnStep.code (step : TurnStep limit s x k x' es) (idle : x.frames = []) :
    TurnCode x.phase x'.frames := by
  have none : TurnCode x.phase x.frames := idle ▸ .nothing
  cases step with
  | pollStopped task r rest => exact .cancelled _ _ task
  | interrupt i task => exact .cancelled _ _ task
  | send | beginRefresh | wake | take | close => exact none
  | wakeStopped => exact .hush
  | reject j => exact .reject j
  | finish closed => exact .leave closed
  | beginJob j p rest =>
    obtain ⟨r, e⟩ | e := ({ x with runnable := rest } : Worker).advanced_cases j p
    · exact e ▸ .conclude j r
    · exact e ▸ none
  | answered task r rest =>
    cases task with
    | job j p =>
      obtain ⟨result, e⟩ | ⟨q, e⟩ :=
        ({ x with runnable := rest } : Worker).answered_job_cases limit j p r
      · exact e ▸ .conclude j result
      · exact e ▸ none
    | refresh g =>
      cases r with
      | panic m => exact .refresh _ (.refreshed _) rfl
      | arrival a =>
        obtain ⟨code, own⟩ := refreshCode_answered g limit a
        exact .refresh _ code own

/-- The frame is only ever pushed by another one: neither a thread nor a turn starts with it. -/
def Frame.isPushed : Frame → Bool
  | returning _ _ _ | takeStale _ | start _ | signal _ | join _ | forgetChain | forgetFeeAddress
  | finishShutdown | dispatch _ | enqueue _ _ | notify _ | deliver _ _ | awaitDelivery _
  | markInitialized | markFailed | goLive => true
  | _ => false

theorem TurnCode.isPushed {p : Phase} {fs : List Frame} (code : TurnCode p fs) :
    ∀ g ∈ fs, g.isPushed = false := by
  apply none_of_any
  cases code with
  | refresh fs code => cases code <;> rfl
  | _ => rfl

/-- Such a frame was in the code of a thread before a step, or the frame that the thread ran has
pushed it. -/
theorem ThreadStep.source {w v : World} {m : Move} {t : Thread} {f : Frame} {fs gs : List Frame}
    (step : ThreadStep w m v t fs gs) (inner : f.isPushed = true) (there : f ∈ gs) : f ∈ fs ∨
      ∃ g rest u new, m = .run t ∧ fs = g :: rest ∧ FrameStep w t g u new ∧ f ∈ new := by
  have first {code : List Frame} (none : ∀ g ∈ code, g.isPushed = false) : f ∉ code := by
    intro there
    rw [none f there] at inner
    cases inner
  cases step with
  | same => exact .inl there
  | run g rest new u here code ran result =>
    rcases List.mem_append.mp there with pushed | left
    · exact .inr ⟨g, rest, u, new, here, rfl, ran, pushed⟩
    · exact .inl (List.mem_cons_of_mem _ left)
  | call | release | started => exact absurd there (first (none_of_any rfl))
  | turn s k x x' es here turn hx idle step => exact absurd there (first (step.code idle).isPushed)

/-- A frame of its own was in the code of a worker before a step, its own course has pushed it, or
an idle worker starts with it. -/
theorem WorkerStep.source {w : World} {m : Move} {y : Worker} {f : Frame}
    (step : WorkerStep w m s x y) (own : f.isOwn = true) (there : f ∈ y.frames) : f ∈ x.frames ∨
      (∃ g rest fs x' c chain, x.frames = g :: rest ∧ y.frames = fs ++ rest ∧
        OwnStep w x g x' c chain fs ∧ f ∈ fs) ∨
      ∃ k es, m = .turn s k ∧ x.frames = [] ∧ TurnStep w.timeout s x k y es := by
  cases step with
  | others y away touched => exact .inl (touched.frames ▸ there)
  | foreign g rest fs u y here code ran notOwn touched =>
    rcases List.mem_append.mp there with pushed | left
    · rw [ran.foreign notOwn f pushed] at own
      cases own
    · exact .inl (code ▸ List.mem_cons_of_mem _ left)
  | own g rest fs x' c chain here code own =>
    rcases List.mem_append.mp there with pushed | left
    · exact .inr (.inl ⟨g, rest, fs, x', c, chain, code, rfl, own, pushed⟩)
    · exact .inl (code ▸ List.mem_cons_of_mem _ left)
  | markFailed rest here code | leave rest here code =>
    exact .inl (code ▸ List.mem_cons_of_mem _ there)
  | reply => exact .inl there
  | turn k y es here idle stays turn => exact .inr (.inr ⟨k, es, here, idle, turn⟩)

/-- Ending a task changes what the refreshing task does and starts code. -/
theorem Worker.cancelled_eq (x : Worker) (task : Task) :
    ∃ r fs, x.cancelled task = { x with refreshing := r, frames := fs } := by
  cases task with
  | job j p => exact ⟨_, _, rfl⟩
  | refresh g =>
    rw [Worker.cancelled]
    split <;> exact ⟨_, _, rfl⟩

/-- A task that goes on starts code or is left to go on later. -/
theorem Worker.answered_eq (x : Worker) (limit : Exchange.Timeout) (task : Task) (r : Reply) :
    ∃ rs fs, x.answered limit task r = { x with runnable := rs, frames := fs } := by
  cases task with
  | job j p =>
    obtain ⟨result, e⟩ | ⟨q, e⟩ := x.answered_job_cases limit j p r <;> exact ⟨_, _, e⟩
  | refresh g => cases r <;> exact ⟨_, _, rfl⟩

/-- A turn leaves it to others to stop a worker, and keeps its callback and what it remembers. It
keeps a worker as far as it is, or closes it because it was told to stop. -/
theorem TurnStep.same (step : TurnStep limit s x k x' es) :
    x'.stopped = x.stopped ∧ x'.callback = x.callback ∧ x'.memory = x.memory ∧
      (x'.phase = x.phase ∨ x.phase = .live ∧ x'.phase = .closed ∧ x.stopped = true) := by
  cases step with
  | close live stopped => exact ⟨rfl, rfl, rfl, .inr ⟨live, rfl, stopped⟩⟩
  | pollStopped task r rest =>
    obtain ⟨r, fs, e⟩ := ({ x with runnable := rest } : Worker).cancelled_eq task
    rw [e]
    exact ⟨rfl, rfl, rfl, .inl rfl⟩
  | interrupt i task =>
    obtain ⟨r, fs, e⟩ := ({ x with waiting := x.waiting.eraseIdx i } : Worker).cancelled_eq task
    rw [e]
    exact ⟨rfl, rfl, rfl, .inl rfl⟩
  | beginJob j p rest =>
    obtain ⟨r, e⟩ | e := ({ x with runnable := rest } : Worker).advanced_cases j p
    all_goals
      rw [e]
      exact ⟨rfl, rfl, rfl, .inl rfl⟩
  | answered task r rest =>
    obtain ⟨rs, fs, e⟩ := ({ x with runnable := rest } : Worker).answered_eq limit task r
    rw [e]
    exact ⟨rfl, rfl, rfl, .inl rfl⟩
  | _ => exact ⟨rfl, rfl, rfl, .inl rfl⟩

theorem Course.cancelled {task : Task} (stays : x.phase ≠ .ended)
    (h : Course x.phase x.refreshing (x.refreshes + if task.isRefresh then 1 else 0) []) :
    Course (x.cancelled task).phase (x.cancelled task).refreshing (x.cancelled task).refreshes
      (ownCode (x.cancelled task).frames) := by
  cases task with
  | job j p => simpa [Worker.cancelled, Task.isRefresh, ownCode, Frame.isOwn] using h
  | refresh g =>
    simp only [Task.isRefresh, if_true] at h
    obtain ⟨busy, one, -⟩ | ⟨-, none, -⟩ | ⟨-, none, -⟩ := h.idle
    · have none : x.refreshes = 0 := by omega
      rw [Worker.cancelled]
      by_cases hp : x.phase = .opening
      · rw [if_pos hp, refreshes_frames, none, hp, busy]
        exact .refresh _ _ (by simp) (.refreshed _)
      · rw [if_neg hp]
        change Course x.phase .over x.refreshes _
        rw [none]
        refine .hush _ ?_
        cases hx : x.phase <;> simp_all
    · omega
    · omega

theorem Course.answered {task : Task} {r : Reply} (idle : x.frames = [])
    (stays : x.phase ≠ .ended)
    (h : Course x.phase x.refreshing (x.refreshes + if task.isRefresh then 1 else 0) []) :
    Course (x.answered limit task r).phase (x.answered limit task r).refreshing
      (x.answered limit task r).refreshes (ownCode (x.answered limit task r).frames) := by
  cases task with
  | job j p =>
    obtain ⟨result, e⟩ | ⟨q, e⟩ := x.answered_job_cases limit j p r
    · simpa [e, Task.isRefresh, ownCode, Frame.isOwn] using h
    · rw [e, refreshes_job, idle]
      exact h
  | refresh g =>
    simp only [Task.isRefresh, if_true] at h
    obtain ⟨busy, one, -⟩ | ⟨-, none, -⟩ | ⟨-, none, -⟩ := h.idle
    · have none : x.refreshes = 0 := by omega
      cases r with
      | panic m =>
        change Course x.phase x.refreshing x.refreshes _
        rw [none, busy]
        exact .refresh _ _ stays (.refreshed _)
      | arrival a =>
        obtain ⟨code, own⟩ := refreshCode_answered g limit a
        change Course x.phase x.refreshing x.refreshes (ownCode (World.refreshAnswered g limit a))
        rw [none, busy, own]
        exact .refresh _ _ stays code
    · omega
    · omega

/-- A turn keeps a worker on its course. -/
theorem Course.turn (step : TurnStep limit s x k x' es) (idle : x.frames = [])
    (stays : x.phase ≠ .ended) (h : Course x.phase x.refreshing x.refreshes []) :
    Course x'.phase x'.refreshing x'.refreshes (ownCode x'.frames) := by
  cases step with
  | pollStopped task r rest stopped first =>
    rw [refreshes_poll first] at h
    exact Course.cancelled stays h
  | send task rest going first =>
    rw [refreshes_poll first] at h
    have moved : ({ x with runnable := rest, waiting := x.waiting ++ [task] } : Worker).refreshes =
        ({ x with runnable := rest } : Worker).refreshes + if task.isRefresh then 1 else 0 := by
      simp only [Worker.refreshes, Worker.tasks, List.countP_append, List.countP_cons,
        List.countP_nil]
      omega
    rw [moved, idle]
    exact h
  | beginJob j p rest going first =>
    rw [refreshes_poll first] at h
    simp only [Task.isRefresh, Bool.false_eq_true, if_false, Nat.add_zero] at h
    obtain ⟨r, e⟩ | e := ({ x with runnable := rest } : Worker).advanced_cases j p
    · rw [e]
      exact h
    · rw [e, refreshes_job, idle]
      exact h
  | beginRefresh g rest going first =>
    rw [refreshes_poll first] at h
    have := refreshes_asking { x with runnable := rest } g .send
    rw [this, idle]
    exact h
  | answered task r rest going first =>
    rw [refreshes_poll first] at h
    exact Course.answered idle stays h
  | interrupt i task stopped there =>
    rw [refreshes_interrupt there] at h
    exact Course.cancelled stays h
  | wakeStopped asleep stopped =>
    obtain ⟨busy, -, -⟩ | ⟨-, none, p⟩ | ⟨spent, -, -⟩ := h.idle
    · simp [asleep] at busy
    · change Course x.phase .over x.refreshes _
      rw [none]
      exact .hush _ p
    · simp [asleep] at spent
  | wake asleep going =>
    obtain ⟨busy, -, -⟩ | ⟨-, none, p⟩ | ⟨spent, -, -⟩ := h.idle
    · simp [asleep] at busy
    · have more := refreshes_asking { x with refreshing := .busy } .info .send
      change Course x.phase .busy _ (ownCode x.frames)
      rw [more, refreshes_refreshing, none, idle]
      exact .asked _ stays
    · simp [asleep] at spent
  | take j rest live first =>
    have := refreshes_job { x with queue := rest } j j.operation.procedure .fresh
    rw [this, idle]
    exact h
  | close live stopped =>
    change Course .closed x.refreshing x.refreshes (ownCode x.frames)
    rw [idle]
    obtain ⟨busy, one, -⟩ | ⟨asleep, none, p⟩ | ⟨spent, none, p⟩ := h.idle
    · rw [busy, one]
      exact .asked _ (by simp)
    · rw [asleep, none]
      exact .asleep _ (.inr rfl)
    · rw [spent, none]
      exact .spent _ (.inr rfl)
  | reject j rest closed first => exact h
  | finish closed queue runnable waiting spent =>
    change Course x.phase x.refreshing x.refreshes _
    obtain ⟨busy, -, -⟩ | ⟨asleep, -, -⟩ | ⟨-, none, -⟩ := h.idle
    · simp [spent] at busy
    · simp [spent] at asleep
    · rw [closed, spent, none]
      exact .finish

end Course

namespace Worker.OnCourse
variable {w : World} {m : Move} {s : Nat} {x y : Worker}

theorem new (cb : Callback) : (Worker.new cb).OnCourse :=
  ⟨.connect, by simp [Worker.new, Frame.isOwn], by simp [Worker.new]⟩

theorem ownCode_of_ended (h : x.OnCourse) (ended : x.phase = .ended) : ownCode x.frames = [] := by
  have course := h.course
  rw [ended] at course
  generalize x.refreshing = r, x.refreshes = n, ownCode x.frames = o at course
  cases course with
  | refresh _ _ stays => exact absurd rfl stays
  | hush _ passed => rcases passed with live | closed <;> contradiction
  | _ => rfl

theorem touched (h : x.OnCourse) (t : x.Touched y) : y.OnCourse := by
  constructor
  · rw [t.phase, t.refreshing, t.refreshes, t.frames]
    exact h.course
  · rw [t.frames]
    exact h.bottom
  · rw [t.phase]
    exact fun closed => t.stopped (h.closed closed)

/-- Code on top of other code leaves a worker's own at the bottom. -/
theorem bottom_append {f : Frame} {rest : List Frame} (fs : List Frame)
    (h : ∀ g ∈ (f :: rest).getLast?, g.isOwn = false → ownCode (f :: rest) = [])
    (top : ∀ g ∈ fs.getLast?, g.isOwn = false → ownCode fs = [])
    (foreign : f.isOwn = false → ownCode fs = []) :
    ∀ g ∈ (fs ++ rest).getLast?, g.isOwn = false → ownCode (fs ++ rest) = [] := by
  intro g hg notOwn
  cases rest with
  | nil => simpa using top g (by simpa using hg) notOwn
  | cons b rest =>
    have all := h g (by simpa [List.getLast?_append, List.getLast?_cons] using hg) notOwn
    cases own : f.isOwn with
    | true => simp [ownCode_own own] at all
    | false => rwa [ownCode_append, foreign own, ← ownCode_foreign own]

/-- The code that a frame of its own pushes ends with such a frame, if there is one in it. -/
theorem bottom_own {f : Frame} {fs : List Frame} {x' : Worker} {c : Connection}
    {chain : ChainView} (step : OwnStep w x f x' c chain fs) :
    ∀ g ∈ fs.getLast?, g.isOwn = false → ownCode fs = [] := by
  cases step with
  | notePeers | noteKnown | noteHeader => split <;> simp [ownCode, Frame.isOwn]
  | setConnected => simp [ownCode, Frame.isOwn]
  | _ => simp [Frame.isOwn]

theorem bottom_turn {p : Phase} {fs : List Frame} (code : TurnCode p fs) :
    ∀ g ∈ fs.getLast?, g.isOwn = false → ownCode fs = [] := by
  cases code with
  | refresh fs code own =>
    intro g hg notOwn
    have : g ∈ ownCode fs := own.symm ▸ List.mem_of_getLast? hg
    simp [ownCode, notOwn] at this
  | _ => simp [ownCode, Frame.isOwn]

/-- Whatever a step means to a worker, it stays on its course. -/
theorem step (h : x.OnCourse) (step : WorkerStep w m s x y) : y.OnCourse := by
  cases step with
  | others y away touched => exact h.touched touched
  | foreign f rest fs u y here hf step notOwn touched =>
    have own := ownCode_eq_nil (step.foreign notOwn)
    constructor
    · change Course y.phase y.refreshing y.refreshes (ownCode (fs ++ rest))
      rw [touched.phase, touched.refreshing, touched.refreshes, step.ownCode_eq notOwn, ← hf]
      exact h.course
    · exact bottom_append _ (hf ▸ h.bottom) (fun _ _ _ => own) fun _ => own
    · exact (h.touched touched).closed
  | own f rest fs x' c chain here hf step =>
    have course := h.course
    rw [hf, ownCode_own step.isOwn] at course
    constructor
    · change Course x'.phase x'.refreshing x'.refreshes (ownCode (fs ++ rest))
      rw [ownCode_append]
      exact Course.own step course
    · refine bottom_append _ (hf ▸ h.bottom) (bottom_own step) fun notOwn => ?_
      rw [step.isOwn] at notOwn
      cases notOwn
    · have closed := h.closed
      cases step <;> first | exact closed | simp
  | markFailed rest here hf =>
    have course := h.course
    rw [hf, ownCode_own rfl] at course
    constructor
    · change Course x.phase x.refreshing x.refreshes (ownCode rest)
      generalize x.phase = p, x.refreshing = r, x.refreshes = n, ownCode rest = o at course ⊢
      cases course with
      | refresh p fs stays code => cases code
      | failed => exact .leave
    · exact bottom_append [] (hf ▸ h.bottom) (by simp) fun _ => rfl
    · exact h.closed
  | leave rest here hf =>
    have course := h.course
    rw [hf, ownCode_own rfl] at course
    constructor
    · change Course .ended .over x.refreshes (ownCode rest)
      generalize x.phase = p, x.refreshing = r, x.refreshes = n, ownCode rest = o at course ⊢
      cases course with
      | refresh p fs stays code => cases code
      | leave => exact .ended
      | finish => exact .ended
    · exact bottom_append [] (hf ▸ h.bottom) (by simp) fun _ => rfl
    · simp
  | reply i r task here there fits =>
    have moved : ({ x with
        waiting := x.waiting.eraseIdx i
        runnable := x.runnable ++ [(task, .answered r)] } : Worker).refreshes = x.refreshes := by
      have := refreshes_interrupt there
      simp only [Worker.refreshes, Worker.tasks, List.map_append, List.map_cons, List.map_nil,
        List.countP_append, List.countP_cons, List.countP_nil] at this ⊢
      omega
    constructor
    · change Course x.phase x.refreshing _ (ownCode x.frames)
      rw [moved]
      exact h.course
    · exact h.bottom
    · exact h.closed
  | turn k x' es here idle stays step =>
    have course := h.course
    rw [idle] at course
    refine ⟨Course.turn step idle stays course, bottom_turn (step.code idle), fun closed => ?_⟩
    obtain ⟨same, -, -, phase | ⟨-, -, stopped⟩⟩ := step.same
    · exact same ▸ h.closed (phase ▸ closed)
    · exact same ▸ stopped

end Worker.OnCourse

end RemoteNode.Session
