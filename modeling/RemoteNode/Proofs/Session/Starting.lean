import RemoteNode.Proofs.Session.Windows
import Mathlib.Data.List.Infix

/-! The order in which operations start. Between a call and its first request an operation waits in
the queue of its worker, then to be run for the first time, and then to send. The operations that
have asked for nothing yet form one line through all three places, which every step shortens or
lengthens at its end; so those of one thread start in the order in which the thread called them,
whatever other threads, refreshes and replies come between. Tickets tell that order: every call
draws the next. -/

namespace RemoteNode.Session

/-- Two callbacks are those of one call. -/
def Callback.Same (a b : Callback) : Prop := a.thread = b.thread ∧ a.ticket = b.ticket

instance (a b : Callback) : Decidable (a.Same b) := inferInstanceAs (Decidable (_ ∧ _))

/-- Of two calls on one thread, the former came first. -/
def Callback.Precedes (a b : Callback) : Prop := a.thread = b.thread → a.ticket < b.ticket

/-- A worker sends a request for the operation with this callback. -/
def Entry.starts (s : Nat) (cb : Callback) : Entry → Bool
  | .sent r (.job j _) => r = s && j.callback.Same cb
  | _ => false

/-- A worker has sent a request for the operation with this callback. -/
def hasStarted (s : Nat) (cb : Callback) (log : List Entry) : Bool := log.any (Entry.starts s cb)

/-- The job that may send its request next, whether it is the first or not. -/
def sending? : Task × Ready → Option Job
  | (.job j _, .send) => some j
  | _ => none

/-- The job that was taken from the queue and has not run yet. -/
def taken? : Task × Ready → Option Job
  | (.job j _, .fresh) => some j
  | _ => none

section Kinds
variable {j : Job} {p : Procedure j.operation.Result}

@[simp] theorem sending?_send : sending? (.job j p, .send) = some j := rfl

@[simp] theorem sending?_refresh (g : Stage) (r : Ready) : sending? (.refresh g, r) = none := rfl

@[simp] theorem sending?_fresh : sending? (.job j p, .fresh) = none := rfl

@[simp] theorem sending?_answered (r : Reply) : sending? (.job j p, .answered r) = none := rfl

@[simp] theorem taken?_fresh : taken? (.job j p, .fresh) = some j := rfl

@[simp] theorem taken?_refresh (g : Stage) (r : Ready) : taken? (.refresh g, r) = none := rfl

@[simp] theorem taken?_send : taken? (.job j p, .send) = none := rfl

@[simp] theorem taken?_answered (r : Reply) : taken? (.job j p, .answered r) = none := rfl

end Kinds

namespace Worker

/-- The jobs of a worker that no request is on its way for, in the order in which they will send
their next. -/
def pending (x : Worker) : List Job :=
  x.runnable.filterMap sending? ++ x.runnable.filterMap taken? ++ x.queue

/-- Those of them that have asked for nothing yet. -/
def line (s : Nat) (log : List Entry) (x : Worker) : List Job :=
  x.pending.filter fun j => !hasStarted s j.callback log

/-- A job that waits for a reply, or was given one, has sent a request. -/
structure Begun (s : Nat) (log : List Entry) (x : Worker) : Prop where
  waiting : ∀ j p, .job j p ∈ x.waiting → hasStarted s j.callback log
  answered : ∀ j p r, (.job j p, .answered r) ∈ x.runnable → hasStarted s j.callback log

end Worker

section Lines
variable {w u v : World} {m : Move} {t : Thread} {s : Nat} {x y : Worker} {f : Frame}
  {fs rest : List Frame} {log es : List Entry} {e : Entry} {a b cb : Callback} {j : Job}
  {limit : Exchange.Timeout} {k : Turn}

/-! ### Requests -/

theorem starts_of_sent {p : Procedure j.operation.Result} :
    (Entry.sent s (.job j p)).starts s cb = true ↔ j.callback.Same cb := by
  simp [Entry.starts]

theorem exchange_of_starts (h : e.starts s cb = true) :
    ∃ j p, e = .sent s (.job j p) ∧ j.callback.Same cb := by
  unfold Entry.starts at h
  split at h
  · rename_i r j p
    simp only [Bool.and_eq_true, decide_eq_true_eq] at h
    obtain ⟨rfl, same⟩ := h
    exact ⟨j, p, rfl, same⟩
  · cases h

theorem hasStarted_append :
    hasStarted s cb (es ++ log) = (hasStarted s cb es || hasStarted s cb log) := List.any_append

theorem hasStarted_of_sent {p : Procedure j.operation.Result} (sent : .sent s (.job j p) ∈ log) :
    hasStarted s j.callback log = true :=
  List.any_eq_true.mpr ⟨_, sent, starts_of_sent.mpr ⟨rfl, rfl⟩⟩

theorem hasStarted_congr (same : a.Same b) : hasStarted s a log = hasStarted s b log := by
  have names (c : Callback) : c.Same a ↔ c.Same b := by
    rw [Callback.Same, Callback.Same, same.1, same.2]
  have each : Entry.starts s a = Entry.starts s b := by
    funext e
    cases e with
    | sent r task => cases task <;> simp [Entry.starts, names]
    | _ => rfl
  rw [hasStarted, each, hasStarted]

/-! ### One line through a worker -/

/-- Whatever is written to the log, a line gets no longer by it. -/
theorem line_sublist (less : y.pending.Sublist x.pending) (es : List Entry) :
    (y.line s (es ++ log)).Sublist (x.line s log) := by
  refine .trans (List.monotone_filter_right _ fun j fresh => ?_) (less.filter _)
  rw [hasStarted_append, Bool.not_or, Bool.and_eq_true] at fresh
  exact fresh.2

theorem line_of_eq (same : y.pending = x.pending) (es : List Entry) :
    (y.line s (es ++ log)).Sublist (x.line s log) := by
  refine line_sublist ?_ es
  rw [same]

/-- A job that has sent a request is in no line. -/
theorem line_of_hasStarted (x : Worker) (begun : hasStarted s j.callback log = true)
    (q : Procedure j.operation.Result) :
    ({ x with runnable := x.runnable ++ [(.job j q, .send)] } : Worker).line s log =
      x.line s log := by
  simp [Worker.line, Worker.pending, begun, List.filterMap_cons]

theorem pending_popped {task : Task × Ready} {rest : List (Task × Ready)}
    (h : x.runnable = task :: rest) :
    ({ x with runnable := rest } : Worker).pending.Sublist x.pending := by
  have less := List.sublist_cons_self task rest
  rw [Worker.pending, Worker.pending, h]
  exact ((less.filterMap _).append (less.filterMap _)).append (.refl _)

/-- A job that sends its first request is the first of its line. -/
theorem line_of_sending {p : Procedure j.operation.Result} {rest : List (Task × Ready)}
    (ready : x.runnable = (.job j p, .send) :: rest) (fresh : hasStarted s j.callback log = false) :
    x.line s log = j :: ({ x with runnable := rest } : Worker).line s log := by
  have front : x.pending = j :: ({ x with runnable := rest } : Worker).pending := by
    simp [Worker.pending, ready, List.filterMap_cons]
  rw [Worker.line, front, List.filter_cons_of_pos (by simp [fresh]), Worker.line]

theorem holds_of_pending (there : j ∈ x.pending) : x.Holds j := by
  have task {a : Task × Ready} (ready : a ∈ x.runnable)
      (job : sending? a = some j ∨ taken? a = some j) : x.Holds j := by
    suffices named : ∃ p, a.1 = .job j p by
      obtain ⟨p, same⟩ := named
      exact .inr ⟨p, List.mem_append_left _ (same ▸ List.mem_map_of_mem ready)⟩
    obtain job | job := job
    all_goals
      simp only [sending?, taken?] at job
      split at job
      · cases job
        exact ⟨_, rfl⟩
      · cases job
  simp only [Worker.pending, List.mem_append, List.mem_filterMap] at there
  obtain (⟨a, ready, job⟩ | ⟨a, ready, job⟩) | queued := there
  · exact task ready (.inl job)
  · exact task ready (.inr job)
  · exact .inl queued

/-- In a turn a worker lets go of jobs in its line or leaves them in their order. -/
theorem TurnStep.line (step : TurnStep limit s x k y es) (begun : x.Begun s log) :
    (y.line s (es ++ log)).Sublist (x.line s log) := by
  cases step with
  | pollStopped task r rest stopped h =>
    obtain ⟨q, fs, same⟩ := ({ x with runnable := rest } : Worker).cancelled_eq task
    rw [same]
    exact line_sublist (pending_popped h) []
  | interrupt n task =>
    obtain ⟨q, fs, same⟩ := ({ x with waiting := x.waiting.eraseIdx n } : Worker).cancelled_eq task
    rw [same]
    exact line_of_eq rfl []
  | send task rest going h => exact line_sublist (pending_popped h) _
  | beginJob j p rest going h =>
    obtain ⟨r, same⟩ | same := ({ x with runnable := rest } : Worker).advanced_cases j p
    · rw [same]
      exact line_sublist (pending_popped h) []
    · -- the first job that was taken becomes the last that may send
      rw [same]
      refine line_of_eq ?_ []
      simp [Worker.pending, h, List.filterMap_cons]
  | beginRefresh g rest going h =>
    refine line_of_eq ?_ []
    simp [Worker.pending, h, List.filterMap_cons]
  | answered task r rest going h =>
    cases task with
    | refresh g =>
      obtain ⟨fs, same⟩ : ∃ fs, ({ x with runnable := rest } : Worker).answered limit
          (.refresh g) r = { x with runnable := rest, frames := fs } := by
        cases r <;> exact ⟨_, rfl⟩
      rw [same]
      exact line_sublist (pending_popped h) _
    | job j p =>
      obtain ⟨result, same⟩ | ⟨q, same⟩ :=
        ({ x with runnable := rest } : Worker).answered_job_cases limit j p r
      · rw [same]
        exact line_sublist (pending_popped h) _
      · have sent : hasStarted s j.callback ([.answered s (.job j p) r] ++ log) = true := by
          rw [hasStarted_append, begun.answered j p r (h ▸ List.mem_cons_self), Bool.or_true]
        rw [same, line_of_hasStarted { x with runnable := rest } sent]
        exact line_sublist (pending_popped h) _
  | wake =>
    refine line_of_eq ?_ []
    simp [Worker.pending, List.filterMap_cons]
  | take j rest live h =>
    -- the first job of the queue becomes the last that was taken
    refine line_of_eq ?_ []
    simp [Worker.pending, h, List.filterMap_cons]
  | reject j rest closed h =>
    refine line_sublist ?_ []
    rw [Worker.pending, Worker.pending, h]
    exact (List.sublist_cons_self ..).append_left _
  | wakeStopped | close | finish => exact line_of_eq rfl []

/-- Outside its turns a worker is only given jobs at the end of its queue. -/
theorem WorldStep.pending (step : WorldStep w m v) (hx : w.workers[s]? = some x)
    (hy : v.workers[s]? = some y) (away : ∀ i, m ≠ .turn s i) :
    y.pending = x.pending ∨ ∃ t j rest, m = .run t ∧ w.frames t = .enqueue s j :: rest ∧
      y.pending = x.pending ++ [j] := by
  have ready : y.runnable.filterMap sending? = x.runnable.filterMap sending? ∧
      y.runnable.filterMap taken? = x.runnable.filterMap taken? := by
    obtain ⟨z, hz, worker⟩ := step.workerStep hx
    rw [hy] at hz
    cases hz
    cases worker with
    | others y away touched => simp [touched.runnable]
    | foreign f rest fs u y here hf ran notOwn touched => simp [touched.runnable]
    | own f rest fs x' c chain here hf own =>
      cases own with
      | connect | askHeader | askPool => simp [List.filterMap_cons]
      | _ => exact ⟨rfl, rfl⟩
    | markFailed | leave => exact ⟨rfl, rfl⟩
    | reply n r task here waits fits => cases task <;> simp [List.filterMap_cons]
    | turn k y es here => exact absurd here (away k)
  rw [Worker.pending, ready.1, ready.2, Worker.pending]
  obtain same | ⟨t, j, rest, here, code, more⟩ := step.queue hx hy away
  · exact .inl (by rw [same])
  · exact .inr ⟨t, j, rest, here, code, by rw [more, ← List.append_assoc]⟩

/-- A step sends requests for jobs of a worker only in that the first job that is to send does. -/
theorem WorldStep.starting (step : WorldStep w m v) (s : Nat) :
    ∃ es, v.log = es ++ w.log ∧ ((∀ e ∈ es, ∀ cb, e.starts s cb = false) ∨
      ∃ x j p rest, w.workers[s]? = some x ∧ x.runnable = (.job j p, .send) :: rest ∧
        es = [.sent s (.job j p)]) := by
  have silent {es : List Entry} (none : ∀ e ∈ es, ∀ task, e.exchange? ≠ some (s, task)) :
      ∀ e ∈ es, ∀ cb, e.starts s cb = false := by
    intro e there cb
    by_contra starts
    obtain ⟨j, p, rfl, -⟩ := exchange_of_starts (by simpa using starts)
    exact none _ there _ rfl
  cases hx : w.workers[s]? with
  | none =>
    obtain ⟨es, he, exchange⟩ := step.log
    refine ⟨es, he, .inl (silent fun e there task exchanges => ?_)⟩
    obtain ⟨x, r, rest, found, -⟩ := exchange e there s task exchanges
    rw [hx] at found
    cases found
  | some x =>
    obtain ⟨y, hy, -⟩ := step.workerStep hx
    obtain ⟨k, es, -, -, turn, he⟩ | ⟨-, es, he, quiet⟩ := step.turn_or_quiet hx hy
    · refine ⟨es, he, ?_⟩
      cases turn with
      | send task rest going ready =>
        cases task with
        | job j p => exact .inr ⟨x, j, p, rest, rfl, ready, rfl⟩
        | refresh g => exact .inl (List.forall_mem_singleton.mpr fun _ => rfl)
      | answered task r rest => exact .inl (List.forall_mem_singleton.mpr fun _ => rfl)
      | _ => exact .inl (List.forall_mem_nil _)
    · exact ⟨es, he, .inl (silent quiet)⟩

/-- A call has started before, or the first job of a line sends a request for it. -/
theorem WorldStep.start_source (step : WorldStep w m v) (now : hasStarted s cb v.log = true) :
    hasStarted s cb w.log = true ∨ ∃ x j js, w.workers[s]? = some x ∧ x.line s w.log = j :: js ∧
      j.callback.Same cb := by
  cases before : hasStarted s cb w.log with
  | true => exact .inl rfl
  | false =>
    right
    obtain ⟨es, he, quiet | ⟨x, j, p, rest, hx, ready, rfl⟩⟩ := step.starting s
    all_goals rw [he, hasStarted_append, before, Bool.or_false] at now
    · obtain ⟨e, there, starts⟩ := List.any_eq_true.mp now
      rw [quiet e there cb] at starts
      cases starts
    · have same : j.callback.Same cb := by simpa [hasStarted, Entry.starts] using now
      exact ⟨x, j, _, hx, line_of_sending ready ((hasStarted_congr same).trans before), same⟩

theorem WorldStep.line (step : WorldStep w m v) (hx : w.workers[s]? = some x)
    (hy : v.workers[s]? = some y) (begun : x.Begun s w.log) :
    (y.line s v.log).Sublist (x.line s w.log) ∨ ∃ t j rest, m = .run t ∧
      w.frames t = .enqueue s j :: rest ∧
        (y.line s v.log).Sublist (x.line s w.log ++ [j]) := by
  obtain ⟨k, es, -, -, turn, he⟩ | ⟨away, es, he, -⟩ := step.turn_or_quiet hx hy
  · rw [he]
    exact .inl (turn.line begun)
  · rw [he]
    obtain same | ⟨t, j, rest, here, code, more⟩ := step.pending hx hy away
    · exact .inl (line_of_eq same es)
    · refine .inr ⟨t, j, rest, here, code, ?_⟩
      have longer : ({ x with queue := x.queue ++ [j] } : Worker).pending = x.pending ++ [j] := by
        rw [Worker.pending, Worker.pending, ← List.append_assoc]
      refine (line_of_eq (more.trans longer.symm) es).trans ?_
      rw [Worker.line, longer, List.filter_append]
      exact List.filter_sublist.append_left _

/-! ### Jobs that have begun -/

/-- In a turn a task comes to wait for a reply only in that its request is sent. -/
theorem TurnStep.waits (step : TurnStep limit s x k y es) :
    (∀ task ∈ y.waiting, task ∈ x.waiting ∨ .sent s task ∈ es) ∧
      ∀ task r, (task, .answered r) ∈ y.runnable → (task, .answered r) ∈ x.runnable := by
  have left {task : Task × Ready} {rest : List (Task × Ready)} (h : x.runnable = task :: rest) :
      ∀ a ∈ rest, a ∈ x.runnable := fun a there => h ▸ List.mem_cons_of_mem _ there
  have still : ∀ task ∈ x.waiting, task ∈ x.waiting ∨ .sent s task ∈ es := fun _ => .inl
  cases step with
  | pollStopped task r rest stopped h =>
    obtain ⟨q, fs, same⟩ := ({ x with runnable := rest } : Worker).cancelled_eq task
    rw [same]
    exact ⟨still, fun _ _ => left h _⟩
  | send task rest going h =>
    refine ⟨fun task there => ?_, fun _ _ => left h _⟩
    obtain old | new := List.mem_append.mp there
    · exact .inl old
    · exact .inr (by rw [List.mem_singleton.mp new]; exact List.mem_singleton_self _)
  | beginJob j p rest going h =>
    obtain ⟨r, same⟩ | same := ({ x with runnable := rest } : Worker).advanced_cases j p
    · rw [same]
      exact ⟨still, fun _ _ => left h _⟩
    · rw [same]
      exact ⟨still, fun task r there => left h _ (by simpa using there)⟩
  | beginRefresh g rest going h =>
    exact ⟨still, fun task r there => left h _ (by simpa using there)⟩
  | answered task r rest going h =>
    cases task with
    | refresh g => cases r <;> exact ⟨still, fun _ _ => left h _⟩
    | job j p =>
      obtain ⟨result, same⟩ | ⟨q, same⟩ :=
        ({ x with runnable := rest } : Worker).answered_job_cases limit j p r
      · rw [same]
        exact ⟨still, fun _ _ => left h _⟩
      · rw [same]
        exact ⟨still, fun task r there => left h _ (by simpa using there)⟩
  | interrupt n task =>
    obtain ⟨q, fs, same⟩ := ({ x with waiting := x.waiting.eraseIdx n } : Worker).cancelled_eq task
    rw [same]
    exact ⟨fun task there => .inl (List.mem_of_mem_eraseIdx there), fun _ _ => id⟩
  | wake | take => exact ⟨still, fun task r there => by simpa using there⟩
  | wakeStopped | close | reject | finish => exact ⟨still, fun _ _ => id⟩

theorem Worker.Begun.step (begun : x.Begun s w.log) (step : WorldStep w m v)
    (hx : w.workers[s]? = some x) (hy : v.workers[s]? = some y) : y.Begun s v.log := by
  have later {es : List Entry} {j : Job} (before : hasStarted s j.callback w.log = true) :
      hasStarted s j.callback (es ++ w.log) = true := by
    rw [hasStarted_append, before, Bool.or_true]
  obtain ⟨k, es, -, -, turn, he⟩ | ⟨away, es, he, -⟩ := step.turn_or_quiet hx hy
  · rw [he]
    refine ⟨fun j p there => ?_,
      fun j p r there => later (begun.answered j p r (turn.waits.2 _ _ there))⟩
    obtain old | new := turn.waits.1 _ there
    · exact later (begun.waiting j p old)
    · rw [hasStarted_append, hasStarted_of_sent new, Bool.true_or]
  · rw [he]
    obtain ⟨z, hz, worker⟩ := step.workerStep hx
    rw [hy] at hz
    cases hz
    have same {z : Worker} (waiting : z.waiting = x.waiting)
        (answered : ∀ task r, (task, .answered r) ∈ z.runnable → (task, .answered r) ∈ x.runnable) :
        z.Begun s (es ++ w.log) :=
      ⟨fun j p there => later (begun.waiting j p (waiting ▸ there)),
        fun j p r there => later (begun.answered j p r (answered _ _ there))⟩
    cases worker with
    | others y away touched => exact same touched.waiting fun _ _ there => touched.runnable ▸ there
    | foreign f rest fs u y here hf ran notOwn touched =>
      exact same touched.waiting fun _ _ there => touched.runnable ▸ there
    | own f rest fs x' c chain here hf own =>
      cases own with
      | connect | askHeader | askPool => exact same rfl fun _ _ there => by simpa using there
      | _ => exact same rfl fun _ _ => id
    | markFailed | leave => exact same rfl fun _ _ => id
    | reply n r task here waits fits =>
      refine ⟨fun j p there => later (begun.waiting j p (List.mem_of_mem_eraseIdx there)),
        fun j p r' there => later ?_⟩
      simp only [List.mem_append, List.mem_singleton, Prod.mk.injEq] at there
      obtain old | ⟨rfl, -⟩ := there
      · exact begun.answered j p r' old
      · exact begun.waiting j p (List.mem_of_getElem? waits)
    | turn k y es here => exact absurd here (away k)

/-! ### Code that brings jobs -/

/-- The job that a frame brings to a worker. -/
def Frame.brings? : Frame → Option Job
  | dispatch j | enqueue _ j => some j
  | _ => none

theorem FrameStep.brings_tail (ran : FrameStep w t f u fs) : ∀ g ∈ fs.tail, g.brings? = none := by
  have none : fs.tail.all (fun g => g.brings?.isNone) = true := by
    cases ran with
    | own f s x x' c chain fs isHere hx own =>
      cases own with
      | notePeers | noteKnown | noteHeader | notePool => split <;> rfl
      | _ => rfl
    | _ => rfl
  exact fun g there => Option.isNone_iff_eq_none.mp (List.all_eq_true.mp none g there)

theorem WorldStep.brings_tail (before : ∀ t, ∀ g ∈ (w.frames t).tail, g.brings? = none)
    (step : WorldStep w m v) (t : Thread) : ∀ g ∈ (v.frames t).tail, g.brings? = none := by
  have thread := step.threadStep t
  have before := before t
  generalize w.frames t = code, v.frames t = code' at thread before
  cases thread with
  | same => exact before
  | run f rest fs u here code ran result =>
    have pushed := ran.brings_tail
    cases fs with
    | nil => exact fun g there => before g (List.mem_of_mem_tail there)
    | cons f' fs =>
      intro g there
      exact (List.mem_append.mp there).elim (pushed g) (before g)
  | call | release | started => simp
  | turn s k x x' es isHere turn hx idle step =>
    have code := step.code idle
    generalize x'.frames = fs at code
    cases code with
    | refresh fs code => cases code <;> simp [Frame.brings?]
    | _ => simp

/-- A job is brought because it was before, or because it has just been called. -/
theorem WorldStep.brings (step : WorldStep w m v) (here : f ∈ v.frames t)
    (brings : f.brings? = some j) : (∃ g ∈ w.frames t, g.brings? = some j) ∨
      j.callback.ticket = w.tickets ∧ j.callback.thread = t := by
  cases f with
  | dispatch i =>
    cases brings
    exact (World.dispatch_source step here).imp_left fun old => ⟨_, old, rfl⟩
  | enqueue s i =>
    cases brings
    obtain old | ⟨rest, -, code, -⟩ := World.enqueue_source step here
    · exact .inl ⟨_, old, rfl⟩
    · exact .inl ⟨.dispatch j, code ▸ List.mem_cons_self, rfl⟩
  | _ => cases brings

/-- Once a job is in the queue, its thread brings no other. -/
theorem WorldStep.brings_none (before : ∀ g ∈ (w.frames t).tail, g.brings? = none)
    (step : WorldStep w (.run t) v) (code : w.frames t = .enqueue s j :: rest) :
    ∀ g ∈ v.frames t, g.brings? = none := by
  obtain ⟨f, rest', fs, u, code', ran, -, now⟩ := step.ran
  rw [code] at code' before
  obtain ⟨rfl, rfl⟩ := List.cons.inj code'
  rw [now]
  intro g there
  obtain new | old := List.mem_append.mp there
  · cases ran with
    | enqueue => cases new
    | tooLate =>
      rw [List.mem_singleton.mp new]
      rfl
    | own f s x x' c chain fs isHere hx own => cases own
    | stray f own => cases own
  · exact before g old

/-! ### Calls -/

/-- Running a frame logs one call at most, under the next ticket. -/
theorem FrameStep.calls (ran : FrameStep w t f u fs) : ∃ es, u.log = es ++ w.log ∧
    ((∀ cb, .called cb ∉ es) ∨
      ∃ cb, es = [.called cb] ∧ cb.ticket = w.tickets ∧ u.tickets = w.tickets + 1) := by
  cases ran with
  | init src label after | operate src label o after =>
    exact ⟨[.called (w.draw t label after).1], rfl, .inr ⟨_, rfl, rfl, rfl⟩⟩
  | returning src a v => exact ⟨[.returned src a v], rfl, .inl (by simp)⟩
  | complete cb o => exact ⟨[.completed cb o (t = cb.thread)], rfl, .inl (by simp)⟩
  | notifyNobody n | notify n =>
    exact ⟨[.announced t n], by simp [World.record, World.setRegistry_eq, World.setDelivery_eq],
      .inl (by simp)⟩
  | deliver n o => exact ⟨[.notified o n], rfl, .inl (by simp)⟩
  | leave s => exact ⟨[.ended s], rfl, .inl (by simp)⟩
  | register | unregister | unregisterAwait | delivered =>
    exact ⟨[], by simp [World.setRegistry_eq, World.setDelivery_eq], .inl (by simp)⟩
  | _ => exact ⟨[], rfl, .inl (by simp)⟩

theorem WorldStep.calls (step : WorldStep w m v) : ∃ es, v.log = es ++ w.log ∧
    ((∀ cb, .called cb ∉ es) ∨
      ∃ cb, es = [.called cb] ∧ cb.ticket = w.tickets ∧ v.tickets = w.tickets + 1) := by
  cases m with
  | run t =>
    obtain ⟨f, rest, fs, u, -, ran, rfl, -⟩ := step.ran
    have tickets : (u.setFrames t (fs ++ rest)).tickets = u.tickets := by cases t <;> rfl
    obtain ⟨es, he, calls⟩ := ran.calls
    refine ⟨es, by rw [log_setFrames, he], ?_⟩
    rwa [tickets]
  | call | release | reply => cases step; exact ⟨[], rfl, .inl (by simp)⟩
  | turn s k =>
    cases step with
    | turn s k x y es hx idle stays turn =>
      refine ⟨es, rfl, .inl fun cb there => ?_⟩
      cases turn <;> simp at there

end Lines

/-! ### The order of the line -/

/-- A worker has the jobs of each thread in the order of their calls: those that have started are
before those in the line, and those in the line are in order. -/
structure Worker.InOrder (s : Nat) (log : List Entry) (x : Worker) : Prop where
  begun : x.Begun s log
  line : (x.line s log).Pairwise fun i j => i.callback.Precedes j.callback
  ahead : ∀ j ∈ x.line s log, ∀ cb, hasStarted s cb log = true → cb.Precedes j.callback

namespace World

/-- The job of a call is in a line, or it has started. -/
def Brought (w : World) (cb : Callback) : Prop :=
  ∃ s, hasStarted s cb w.log = true ∨
    ∃ x, w.workers[s]? = some x ∧ ∃ j ∈ x.line s w.log, j.callback.Same cb

/-- Jobs go from their calls to their first requests in the order of the calls of each thread. -/
structure InOrder (w : World) : Prop where
  /-- A thread brings one job at a time. -/
  code : ∀ t, ∀ f ∈ (w.frames t).tail, f.brings? = none
  thread : ∀ t, ∀ f ∈ w.frames t, ∀ j, f.brings? = some j → j.callback.thread = t
  /-- No later call of the thread was brought before. -/
  newest : ∀ t, ∀ f ∈ w.frames t, ∀ j, f.brings? = some j →
    ∀ cb, w.Brought cb → cb.Precedes j.callback
  workers : ∀ (s : Nat) (x : Worker), w.workers[s]? = some x → x.InOrder s w.log
  /-- When a job sends a request, those that were called before have sent one, or never will. -/
  first : ∀ (s : Nat) (a b : Callback) (e : Entry) (earlier : List Entry), a.thread = b.thread →
    a.ticket < b.ticket → (e :: earlier) <:+ w.log → e.starts s b = true →
    hasStarted s a w.log = true → hasStarted s a earlier = true

section Order
variable {w v : World} {m : Move} {t : Thread} {s : Nat} {x y : Worker} {f : Frame} {j : Job}
  {cb a b : Callback} {rest : List Frame}

theorem Brought.drawn (brought : w.Brought cb) (accounted : w.Accounted) (unsent : w.Unsent) :
    cb.ticket < w.tickets := by
  obtain ⟨s, sent | ⟨x, hx, j, inLine, same⟩⟩ := brought
  · obtain ⟨e, there, starts⟩ := List.any_eq_true.mp sent
    obtain ⟨j, p, rfl, same⟩ := exchange_of_starts starts
    by_contra undrawn
    exact unsent.drawn cb.ticket (by omega) _ there s _ rfl (congrArg some same.2)
  · have holds := holds_of_pending (List.mem_of_mem_filter inLine)
    rw [← same.2]
    exact accounted.drawn (mem_outstanding_of_job hx (mem_jobTickets holds))

/-- What is in a line or has started was so before, or has just been brought. -/
theorem Brought.source (brought : v.Brought cb) (h : w.InOrder) (step : WorldStep w m v) :
    w.Brought cb ∨ ∃ t s j rest, m = .run t ∧ w.frames t = .enqueue s j :: rest ∧
      j.callback.Same cb := by
  obtain ⟨s, sent | ⟨y, hy, j, inLine, same⟩⟩ := brought
  · obtain before | ⟨x, j, js, hx, line, same⟩ := step.start_source sent
    · exact .inl ⟨s, .inl before⟩
    · exact .inl ⟨s, .inr ⟨x, hx, j, line ▸ List.mem_cons_self, same⟩⟩
  · obtain ⟨x, hx, -⟩ | ⟨-, t, cb, rest, -, -, rfl⟩ := step.cameFrom hy
    · obtain shorter | ⟨t, j', rest, here, code, longer⟩ := step.line hx hy (h.workers s x hx).begun
      · exact .inl ⟨s, .inr ⟨x, hx, j, shorter.subset inLine, same⟩⟩
      · obtain old | new := List.mem_append.mp (longer.subset inLine)
        · exact .inl ⟨s, .inr ⟨x, hx, j, old, same⟩⟩
        · rw [List.mem_singleton.mp new] at same
          exact .inr ⟨t, s, j', rest, here, code, same⟩
    · cases inLine

/-- A call that shares its thread and ticket with another comes before the same calls. -/
theorem precedes_of_same (same : a.Same b) (before : a.Precedes cb) : b.Precedes cb := fun thread =>
  same.2 ▸ before (same.1.trans thread)

theorem InOrder.worker (h : w.InOrder) (step : WorldStep w m v) (hx : w.workers[s]? = some x)
    (hy : v.workers[s]? = some y) : y.InOrder s v.log := by
  have order := h.workers s x hx
  -- whatever is in the line comes before a job that is brought
  have last {t : Thread} {j : Job} {cb : Callback} {rest : List Frame}
      (code : w.frames t = .enqueue s j :: rest) (brought : w.Brought cb) :
      cb.Precedes j.callback :=
    h.newest t _ (code ▸ List.mem_cons_self) j rfl cb brought
  refine ⟨order.begun.step step hx hy, ?_, fun j there cb now => ?_⟩
  · obtain shorter | ⟨t, j, rest, -, code, longer⟩ := step.line hx hy order.begun
    · exact order.line.sublist shorter
    · refine .sublist longer
        (List.pairwise_append.mpr ⟨order.line, List.pairwise_singleton _ _, ?_⟩)
      intro i inLine j' here
      rw [List.mem_singleton.mp here]
      exact last code ⟨s, .inr ⟨x, hx, i, inLine, rfl, rfl⟩⟩
  · have fresh : hasStarted s j.callback v.log = false := by
      simpa using (List.mem_filter.mp there).2
    have source := step.start_source now
    have old (inLine : j ∈ x.line s w.log) : cb.Precedes j.callback := by
      obtain before | ⟨z, i, js, hz, line, same⟩ := source
      · exact order.ahead j inLine cb before
      · -- the first job of the line has just started, and the others come after it
        rw [hx] at hz
        cases hz
        have order := order.line
        rw [line] at inLine order
        obtain rfl | later := List.mem_cons.mp inLine
        · rw [hasStarted_congr same, now] at fresh
          cases fresh
        · exact precedes_of_same same ((List.pairwise_cons.mp order).1 j later)
    obtain shorter | ⟨t, j', rest, -, code, longer⟩ := step.line hx hy order.begun
    · exact old (shorter.subset there)
    · obtain inLine | new := List.mem_append.mp (longer.subset there)
      · exact old inLine
      · rw [List.mem_singleton.mp new]
        refine last code ⟨s, source.imp_right ?_⟩
        rintro ⟨x, i, js, hx, line, same⟩
        exact ⟨x, hx, i, line ▸ List.mem_cons_self, same⟩

theorem suffix_append_cases {e : Entry} {earlier es log : List Entry}
    (here : (e :: earlier) <:+ es ++ log) : e ∈ es ∨ (e :: earlier) <:+ log := by
  induction es with
  | nil => exact .inr here
  | cons d es ih =>
    obtain same | later := List.suffix_cons_iff.mp here
    · exact .inl ((List.cons.inj same).1 ▸ List.mem_cons_self)
    · exact (ih later).imp_left (List.mem_cons_of_mem _)

theorem InOrder.first_step (h : w.InOrder) (step : WorldStep w m v) {e : Entry}
    {earlier : List Entry} (thread : a.thread = b.thread) (order : a.ticket < b.ticket)
    (here : (e :: earlier) <:+ v.log) (starts : e.starts s b = true)
    (both : hasStarted s a v.log = true) : hasStarted s a earlier = true := by
  obtain ⟨es, he, quiet | ⟨x, j, p, rest, hx, ready, rfl⟩⟩ := step.starting s
  · have before : hasStarted s a w.log = true := by
      rw [he, hasStarted_append, Bool.or_eq_true] at both
      refine both.resolve_left fun new => ?_
      obtain ⟨d, there, starts⟩ := List.any_eq_true.mp new
      rw [quiet d there a] at starts
      cases starts
    obtain new | old := suffix_append_cases (he ▸ here)
    · rw [quiet e new b] at starts
      cases starts
    · exact h.first s a b e earlier thread order old starts before
  · rw [he] at here both
    obtain now | before := List.suffix_cons_iff.mp here
    · -- the second of the two sends its request
      obtain ⟨rfl, rfl⟩ := List.cons.inj now
      rw [hasStarted_append, Bool.or_eq_true] at both
      refine both.resolve_left fun new => ?_
      have ofA : j.callback.Same a := by simpa [hasStarted, Entry.starts] using new
      have := ofA.2.symm.trans (starts_of_sent.mp starts).2
      omega
    · cases past : hasStarted s a w.log with
      | true => exact h.first s a b e earlier thread order before starts past
      | false =>
        -- the first of the two would be in the line when the second has started
        rw [hasStarted_append, past, Bool.or_false] at both
        have ofA : j.callback.Same a := by simpa [hasStarted, Entry.starts] using both
        have inLine : j ∈ x.line s w.log :=
          line_of_sending ready ((hasStarted_congr ofA).trans past) ▸ List.mem_cons_self
        have ofB : hasStarted s b w.log = true :=
          List.any_eq_true.mpr ⟨e, before.subset List.mem_cons_self, starts⟩
        have := (h.workers s x hx).ahead j inLine b ofB (thread.symm.trans ofA.1.symm)
        have := ofA.2
        omega

theorem InOrder.step (h : w.InOrder) (accounted : w.Accounted) (unsent : w.Unsent)
    (step : WorldStep w m v) : v.InOrder := by
  have thread : ∀ t, ∀ f ∈ v.frames t, ∀ j, f.brings? = some j → j.callback.thread = t := by
    intro t f here j brings
    obtain ⟨g, there, brings⟩ | ⟨-, thread⟩ := step.brings here brings
    · exact h.thread t g there j brings
    · exact thread
  refine ⟨step.brings_tail h.code, thread, fun t f here j brings cb brought => ?_, fun s y hy => ?_,
    fun s a b e earlier => h.first_step step⟩
  · obtain old | ⟨t', s, i, rest, rfl, code, same⟩ := brought.source h step
    · obtain ⟨g, there, brings⟩ | ⟨new, -⟩ := step.brings here brings
      · exact h.newest t g there j brings cb old
      · intro _
        rw [new]
        exact old.drawn accounted unsent
    · -- a job was brought by another thread, which has no other to bring
      intro shared
      by_cases ran : t' = t
      · subst ran
        rw [step.brings_none (h.code t') code f here] at brings
        cases brings
      · refine absurd ?_ ran
        rw [← thread t f here j brings, ← shared, ← same.1]
        exact (h.thread t' _ (code ▸ List.mem_cons_self) i rfl).symm
  · obtain ⟨x, hx, -⟩ | ⟨-, t, cb, rest, -, -, rfl⟩ := step.cameFrom hy
    · exact h.worker step hx hy
    · exact ⟨⟨fun _ _ there => absurd there List.not_mem_nil,
        fun _ _ _ there => absurd there List.not_mem_nil⟩, .nil,
        fun _ there => absurd there List.not_mem_nil⟩

theorem InOrder.of_untouched (h : w.Untouched) : w.InOrder := by
  have idle (t : Thread) : w.frames t = [] := h.frames t
  refine ⟨fun t f there => ?_, fun t f there => ?_, fun t f there => ?_, fun s x hx => ?_,
    fun s a b e earlier _ _ there => ?_⟩
  · rw [idle t] at there
    cases there
  · rw [idle t] at there
    cases there
  · rw [idle t] at there
    cases there
  · rw [h.workers] at hx
    cases hx
  · rw [h.log] at there
    cases List.suffix_nil.mp there

theorem InOrder.of_reaches {w₀ : World} (first : w₀.Untouched) (run : w₀.Reaches w) :
    w.InOrder := by
  have all : w.Sound ∧ w.Accounted ∧ w.Unsent ∧ w.InOrder := by
    refine run.keeps (P := fun w => w.Sound ∧ w.Accounted ∧ w.Unsent ∧ w.InOrder) ?_ ?_
    · exact ⟨.of_untouched first, .of_untouched first, .of_untouched first, .of_untouched first⟩
    · rintro w m v ⟨sound, accounted, unsent, inOrder⟩ step
      exact ⟨sound.step step, accounted.step sound step, unsent.step accounted step,
        inOrder.step accounted unsent step⟩
  exact all.2.2.2

/-- A call has a lesser ticket than those that are logged after it. -/
def Numbered (w : World) : Prop :=
  ∀ cb before, (.called cb :: before) <:+ w.log →
    cb.ticket < w.tickets ∧ ∀ a, .called a ∈ before → a.ticket < cb.ticket

theorem Numbered.drawn (h : w.Numbered) (called : .called cb ∈ w.log) :
    cb.ticket < w.tickets := by
  obtain ⟨later, before, split⟩ := List.append_of_mem called
  exact (h cb before ⟨later, split.symm⟩).1

theorem Numbered.step (h : w.Numbered) (step : WorldStep w m v) : v.Numbered := by
  intro cb before here
  have le := tickets_le step
  obtain ⟨es, he, none | ⟨new, rfl, ticket, tickets⟩⟩ := step.calls
  · obtain now | old := suffix_append_cases (he ▸ here)
    · exact absurd now (none cb)
    · obtain ⟨drawn, order⟩ := h cb before old
      exact ⟨by omega, order⟩
  · rw [he] at here
    obtain now | old := List.suffix_cons_iff.mp here
    · -- the new call has the next ticket, and those before it have drawn theirs
      obtain ⟨same, rfl⟩ := List.cons.inj now
      cases same
      refine ⟨by omega, fun a called => ?_⟩
      rw [ticket]
      exact h.drawn called
    · obtain ⟨drawn, order⟩ := h cb before old
      exact ⟨by omega, order⟩

theorem Numbered.of_reaches {w₀ : World} (first : w₀.Untouched) (run : w₀.Reaches w) :
    w.Numbered := by
  refine run.keeps (fun cb before here => ?_) fun _ _ _ h step => h.step step
  rw [first.log] at here
  cases List.suffix_nil.mp here

/-! ### The order of the requests -/

/-- Of two operations that one thread asked for and one worker has sent requests for, the one that
was called first has started first: each request for the later one finds one for the former in the
log. -/
theorem hasStarted_of_called_before {w₀ : World} {e : Entry} {earlier before : List Entry}
    (first : w₀.Untouched) (run : w₀.Reaches w) (thread : a.thread = b.thread)
    (laterCalled : (.called b :: before) <:+ w.log) (calledBefore : .called a ∈ before)
    (both : hasStarted s a w.log = true) (here : (e :: earlier) <:+ w.log)
    (starts : e.starts s b = true) : hasStarted s a earlier = true := by
  have order := ((Numbered.of_reaches first run) b before laterCalled).2 a calledBefore
  exact (InOrder.of_reaches first run).first s a b e earlier thread order here starts both

end Order

/-- One thread has made two calls that the first worker has sent requests for. -/
def asksTwice (w : World) : Bool :=
  w.log.tails.any fun
    | .called b :: before => before.any fun
      | .called a => a.thread = b.thread && hasStarted 0 a w.log && hasStarted 0 b w.log
      | _ => false
    | _ => false

set_option maxRecDepth 20000 in
/-- A caller asks for blocks and then for the height; the request for the blocks is sent first. -/
theorem hasStarted_askedTwice : ∃ w a b e earlier before, (initial 1 .standard).Reaches w ∧
    a.thread = b.thread ∧ (.called b :: before) <:+ w.log ∧ .called a ∈ before ∧
    hasStarted 0 a w.log = true ∧ (e :: earlier) <:+ w.log ∧ e.starts 0 b = true ∧
    hasStarted 0 a earlier = true := by
  have found : (asked (.blocksInWindow 0 9 1) []).any (fun w =>
      (w.perform 0 (.operate "height" .height []) 40).asksTwice) = true := by decide +kernel
  obtain ⟨w, hw, twice⟩ := (Option.any_eq_true ..).mp found
  have run := (reaches_asked hw).trans (reaches_perform w 0 (.operate "height" .height []) 40)
  generalize w.perform 0 (.operate "height" .height []) 40 = v at twice run
  obtain ⟨log, tail, calls⟩ := List.any_eq_true.mp twice
  split at calls
  · rename_i b before
    have later := (List.mem_tails ..).mp tail
    obtain ⟨call, called, calls⟩ := List.any_eq_true.mp calls
    split at calls
    · rename_i a
      simp only [Bool.and_eq_true, decide_eq_true_eq] at calls
      obtain ⟨⟨thread, startedA⟩, startedB⟩ := calls
      obtain ⟨e, there, starts⟩ := List.any_eq_true.mp startedB
      obtain ⟨new, earlier, parted⟩ := List.append_of_mem there
      have here : (e :: earlier) <:+ v.log := ⟨new, parted.symm⟩
      exact ⟨v, a, b, e, earlier, before, run, thread, later, called, startedA, here, starts,
        hasStarted_of_called_before ⟨1, .standard, true, _, [], rfl⟩ run thread later called
          startedA here starts⟩
    · cases calls
  · cases calls

end World

end RemoteNode.Session
