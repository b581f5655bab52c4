import RemoteNode.Proofs.Session.Standing

/-! Where callbacks are. Every callback that was drawn is in one place, or was called once: it is
held by a frame, by a job that a worker has, or by a worker whose first refresh has not ended. No
step loses or doubles one. -/

namespace RemoteNode.Session

/-- The ticket of the callback that a frame holds. -/
def Frame.ticket? : Frame → Option Nat
  | takeStale cb | start cb | complete cb _ => some cb.ticket
  | dispatch j | enqueue _ j | conclude j _ => some j.callback.ticket
  | _ => none

/-- The ticket of the callback that a task holds. -/
def Task.ticket? : Task → Option Nat
  | refresh _ => none
  | job j _ => some j.callback.ticket

/-- The ticket of the callback that was called. -/
def Entry.called? : Entry → Option Nat
  | completed cb _ _ => some cb.ticket
  | _ => none

/-- The tickets that code holds. -/
def ticketsOf (fs : List Frame) : List Nat := fs.filterMap Frame.ticket?

/-- The tickets of the jobs that a worker has. -/
def Worker.jobTickets (x : Worker) : List Nat :=
  x.queue.map (·.callback.ticket) ++ x.tasks.filterMap Task.ticket?

/-- The tickets that a worker holds. -/
def Worker.tickets (x : Worker) : List Nat :=
  ticketsOf x.frames ++ x.jobTickets ++ if x.owes then [x.callback.ticket] else []

/-- The tickets of the callbacks that were not called yet. -/
def World.outstanding (w : World) : List Nat :=
  w.callers.flatMap ticketsOf ++ w.workers.flatMap Worker.tickets

/-- The tickets of the callbacks that were called, once for each call. -/
def World.fired (w : World) : List Nat := w.log.filterMap Entry.called?

section Counting
variable {α : Type} {k i : Nat} {l : List α} {x y : α}

theorem count_flatMap_set (g : α → List Nat) (h : l[i]? = some x) :
    (l.set i y |>.flatMap g).count k + (g x).count k = (l.flatMap g).count k + (g y).count k := by
  induction l generalizing i with
  | nil => simp at h
  | cons a l ih =>
    cases i with
    | zero =>
      simp only [List.getElem?_cons_zero, Option.some.injEq] at h
      subst h
      simp only [List.set_cons_zero, List.flatMap_cons, List.count_append]
      omega
    | succ i =>
      simp only [List.getElem?_cons_succ] at h
      have := ih h
      simp only [List.set_cons_succ, List.flatMap_cons, List.count_append] at this ⊢
      omega

theorem flatMap_modify_same (g : α → List Nat) (f : α → α) (h : ∀ x, g (f x) = g x) (i : Nat) :
    (l.modify i f).flatMap g = l.flatMap g := by
  induction l generalizing i with
  | nil => simp
  | cons a l ih =>
    cases i with
    | zero => simp [h]
    | succ i => simp [ih]

end Counting

section Tickets
variable {w u v : World} {m : Move} {t : Thread} {f : Frame} {fs rest : List Frame} {s k : Nat}
  {x x' y : Worker} {c : Connection} {chain : ChainView}

@[simp] theorem ticketsOf_nil : ticketsOf [] = [] := rfl

@[simp] theorem ticketsOf_append (fs gs : List Frame) :
    ticketsOf (fs ++ gs) = ticketsOf fs ++ ticketsOf gs := List.filterMap_append ..

theorem ticketsOf_cons (f : Frame) (fs : List Frame) :
    ticketsOf (f :: fs) = f.ticket?.toList ++ ticketsOf fs := by
  rw [ticketsOf, ticketsOf, List.filterMap_cons]
  cases f.ticket? <;> rfl

theorem tickets_stopped (x : Worker) : ({ x with stopped := true } : Worker).tickets = x.tickets :=
  rfl

/-- What code that is no part of a worker's course does to callbacks: those that the frame held and
those that are drawn go to the code after it, to a worker, or are called. -/
theorem FrameStep.balance (step : FrameStep w t f u fs) (foreign : f.isOwn = false) (k : Nat) :
    (u.workers.flatMap Worker.tickets).count k + (ticketsOf fs).count k + u.fired.count k +
        (List.range w.tickets).count k =
      (w.workers.flatMap Worker.tickets).count k + f.ticket?.toList.count k + w.fired.count k +
        (List.range u.tickets).count k := by
  cases step with
  | own f s x x' c chain fs isHere hx step => rw [step.isOwn] at foreign; cases foreign
  | leave | markFailed => cases foreign
  | stray f own => rw [own] at foreign; cases foreign
  | init src label after rest | operate src label o after rest =>
    simp only [World.draw, World.record, World.fired, List.filterMap_cons, Entry.called?,
      ticketsOf_cons, Frame.ticket?, List.range_succ, List.count_append, ticketsOf_nil,
      Option.toList_some, Option.toList_none, List.append_nil, List.count_nil]
    omega
  | start cb calm state =>
    have same : (w.connection.worker.elim w.workers fun s =>
        w.workers.modify s fun x => { x with stopped := true }).flatMap Worker.tickets =
          w.workers.flatMap Worker.tickets := by
      cases w.connection.worker with
      | none => rfl
      | some s => exact flatMap_modify_same _ _ tickets_stopped s
    have new : (Worker.new cb).tickets = [cb.ticket] := rfl
    simp only [List.flatMap_append, same, List.flatMap_cons, new, List.flatMap_nil,
      List.append_nil, List.count_append, ticketsOf_nil, Frame.ticket?, Option.toList_some,
      List.count_nil, World.fired]
    omega
  | signal s =>
    simp only [flatMap_modify_same _ _ tickets_stopped, ticketsOf_nil, Frame.ticket?,
      Option.toList_none, World.fired]
  | enqueue s j x hx isOpen =>
    have balance := count_flatMap_set (k := k) (y := { x with queue := x.queue ++ [j] })
      Worker.tickets hx
    have more : ({ x with queue := x.queue ++ [j] } : Worker).tickets.count k =
        x.tickets.count k + [j.callback.ticket].count k := by
      have owes : ({ x with queue := x.queue ++ [j] } : Worker).owes = x.owes := rfl
      simp only [Worker.tickets, owes, Worker.jobTickets, Worker.tasks, List.map_append,
        List.map_cons, List.map_nil, List.count_append]
      omega
    rw [modify_eq_set hx]
    simp only [ticketsOf_nil, Frame.ticket?, Option.toList_some, List.count_nil, World.fired]
    omega
  | complete cb o =>
    simp only [World.record, World.fired, List.filterMap_cons, Entry.called?, ticketsOf_cons,
      Frame.ticket?, ticketsOf_nil, Option.toList_some, Option.toList_none, List.count_nil,
      List.count_cons, List.append_nil]
    omega
  | _ =>
    simp [World.record, World.fired, List.filterMap_cons, Entry.called?, ticketsOf_cons,
      Frame.ticket?, World.setRegistry_eq, World.setDelivery_eq]

/-- Whether a worker owes its callback an outcome is read off its course. -/
theorem owes_eq (x : Worker) :
    x.owes = (x.phase = .opening && !(ownCode x.frames).any Frame.decides) := by
  have same : x.frames.any Frame.decides = (ownCode x.frames).any Frame.decides := by
    rw [ownCode, List.any_filter]
    congr 1
    funext f
    cases f <;> rfl
  rw [Worker.owes, same]

theorem ticketsOf_own (own : f.isOwn = true) (rest : List Frame) :
    ticketsOf (f :: rest) = ticketsOf rest := by
  rw [ticketsOf_cons]
  cases f <;> first | rfl | cases own

/-- A frame of its own course takes no callback from a worker, except that it decides what the
worker owes. -/
theorem owes_own (h : x.OnCourse) (hf : x.frames = f :: rest)
    (step : OwnStep w x f x' c chain fs) :
    (({ x' with frames := fs ++ rest } : Worker).owes = x.owes ∧ ticketsOf fs = []) ∨
      x.owes = true ∧ ({ x' with frames := fs ++ rest } : Worker).owes = false ∧
        ticketsOf fs = [x.callback.ticket] := by
  have course := h.course
  have code : ownCode x.frames = f :: ownCode rest := by rw [hf, ownCode_own step.isOwn]
  rw [code] at course
  have before := owes_eq x
  have after := owes_eq { x' with frames := fs ++ rest }
  rw [code] at before
  simp only [ownCode_append] at after
  rw [before, after]
  cases step with
  | noTransport =>
    right
    generalize x.phase = p, x.refreshing = r, x.refreshes = n, ownCode rest = o at course ⊢
    cases course with
    | connect => exact ⟨rfl, rfl, rfl⟩
    | refresh p fs stays code => cases code
  | markInitialized | markRefused =>
    right
    generalize x.phase = p, x.refreshing = r, x.refreshes = n, ownCode rest = o at course ⊢
    cases course with
    | mark => exact ⟨rfl, rfl, rfl⟩
    | refresh p fs stays code => cases code
  | lost e opening =>
    right
    rw [opening] at course ⊢
    generalize x.refreshing = r, x.refreshes = n, ownCode rest = o at course ⊢
    cases course with
    | refresh p fs stays code =>
      cases code
      exact ⟨rfl, rfl, rfl⟩
  | goLive =>
    left
    generalize x.phase = p, x.refreshing = r, x.refreshes = n, ownCode rest = o at course ⊢
    cases course with
    | goLive => exact ⟨rfl, rfl⟩
    | refresh p fs stays code => cases code
  | notePeers | noteKnown | noteHeader | notePool =>
    left
    refine ⟨?_, by split <;> rfl⟩
    split <;> simp [ownCode, Frame.isOwn, Frame.decides]
  | _ =>
    left
    simp [ownCode, Frame.isOwn, Frame.decides, ticketsOf, Frame.ticket?]

theorem count_own (h : x.OnCourse) (hf : x.frames = f :: rest)
    (step : OwnStep w x f x' c chain fs) (k : Nat) :
    ({ x' with frames := fs ++ rest } : Worker).tickets.count k = x.tickets.count k := by
  have jobs : ({ x' with frames := fs ++ rest } : Worker).jobTickets = x.jobTickets := by
    cases step with
    | connect | askHeader | askPool =>
      simp [Worker.jobTickets, Worker.tasks, Task.ticket?, List.filterMap_cons]
    | _ => rfl
  have callback : ({ x' with frames := fs ++ rest } : Worker).callback = x.callback := by
    cases step <;> rfl
  have code : ({ x' with frames := fs ++ rest } : Worker).frames = fs ++ rest := rfl
  have paid := owes_own h hf step
  generalize ({ x' with frames := fs ++ rest } : Worker) = y at jobs callback code paid ⊢
  rw [Worker.tickets, Worker.tickets, jobs, callback, code, hf, ticketsOf_own step.isOwn]
  simp only [ticketsOf_append, List.count_append]
  obtain ⟨owes, none⟩ | ⟨owed, paid, one⟩ := paid
  · rw [owes, none]
    simp only [List.count_nil]
    omega
  · rw [owed, paid, one]
    simp only [if_true, Bool.false_eq_true, if_false, List.count_nil]
    omega

/-- An idle worker holds its jobs and owes as long as it is opening. -/
theorem tickets_idle (idle : x.frames = []) : x.tickets =
    x.jobTickets ++ if x.phase = .opening then [x.callback.ticket] else [] := by
  simp [Worker.tickets, Worker.owes, idle]

/-- Taking the first ready task takes its callback. -/
theorem count_poll {task : Task} {r : Ready} {rest : List (Task × Ready)}
    (h : x.runnable = (task, r) :: rest) (k : Nat) : x.jobTickets.count k =
      ({ x with runnable := rest } : Worker).jobTickets.count k +
        task.ticket?.toList.count k := by
  simp only [Worker.jobTickets, Worker.tasks, h, List.map_cons, List.cons_append,
    List.filterMap_cons, List.count_append]
  cases task.ticket? with
  | none => simp
  | some n =>
    simp only [Option.toList_some, List.count_cons, List.count_nil]
    omega

theorem count_interrupt {i : Nat} {task : Task} (h : x.waiting[i]? = some task) (k : Nat) :
    x.jobTickets.count k =
      ({ x with waiting := x.waiting.eraseIdx i } : Worker).jobTickets.count k +
        task.ticket?.toList.count k := by
  have erased : ∀ {l : List Task} {i : Nat}, l[i]? = some task →
      (l.filterMap Task.ticket?).count k =
        ((l.eraseIdx i).filterMap Task.ticket?).count k + task.ticket?.toList.count k := by
    intro l
    induction l with
    | nil => intro i h; simp at h
    | cons a l ih =>
      intro i h
      cases i with
      | zero =>
        simp only [List.getElem?_cons_zero, Option.some.injEq] at h
        subst h
        simp only [List.filterMap_cons, List.eraseIdx_cons_zero]
        cases a.ticket? with
        | none => simp
        | some n => simp [List.count_cons]
      | succ i =>
        simp only [List.getElem?_cons_succ] at h
        have := ih h
        simp only [List.filterMap_cons, List.eraseIdx_cons_succ]
        cases a.ticket? with
        | none => exact this
        | some n =>
          simp only [List.count_cons]
          omega
  have := erased h
  simp only [Worker.jobTickets, Worker.tasks, List.filterMap_append, List.count_append]
  omega

theorem count_ready (x : Worker) (task : Task) (r : Ready) (k : Nat) :
    ({ x with runnable := x.runnable ++ [(task, r)] } : Worker).jobTickets.count k =
      x.jobTickets.count k + task.ticket?.toList.count k := by
  simp only [Worker.jobTickets, Worker.tasks, List.map_append, List.map_cons, List.map_nil,
    List.filterMap_append, List.filterMap_cons, List.filterMap_nil, List.count_append]
  cases task.ticket? with
  | none => simp
  | some n =>
    simp only [Option.toList_some]
    omega

/-- Jobs come and go without a change of what an idle worker owes. -/
theorem count_jobs (idle : x.frames = []) (frames : y.frames = [])
    (phase : (y.phase = .opening) = (x.phase = .opening)) (callback : y.callback = x.callback)
    (k : Nat) :
    y.tickets.count k + x.jobTickets.count k = x.tickets.count k + y.jobTickets.count k := by
  simp only [tickets_idle idle, tickets_idle frames, phase, callback, List.count_append]
  omega

/-- Code that decides nothing holds its callbacks besides those of an idle worker. -/
theorem count_code (fs : List Frame) (idle : x.frames = [])
    (none : fs.any Frame.decides = false) (k : Nat) :
    ({ x with frames := fs } : Worker).tickets.count k =
      x.tickets.count k + (ticketsOf fs).count k := by
  have owes : ({ x with frames := fs } : Worker).owes = decide (x.phase = .opening) := by
    simp [Worker.owes, none]
  have jobs : ({ x with frames := fs } : Worker).jobTickets = x.jobTickets := rfl
  rw [tickets_idle idle, Worker.tickets, owes, jobs]
  simp only [List.count_append, decide_eq_true_eq]
  omega

/-- A task that is ended gives its callback to the code that ends it. -/
theorem count_cancelled (idle : x.frames = []) (task : Task) (k : Nat) :
    (x.cancelled task).tickets.count k = x.tickets.count k + task.ticket?.toList.count k := by
  cases task with
  | job j p => exact count_code _ idle rfl k
  | refresh g =>
    rw [Worker.cancelled]
    split
    · exact count_code _ idle rfl k
    · exact count_code (x := { x with refreshing := .over }) _ idle rfl k

theorem ticketsOf_refresh (code : RefreshCode fs) :
    ticketsOf fs = [] ∧ fs.any Frame.decides = false := by
  cases code <;> exact ⟨rfl, rfl⟩

/-- A job that goes on keeps its callback or gives it to the code after it. -/
theorem count_advanced (idle : x.frames = []) (j : Job) (p : Procedure j.operation.Result)
    (k : Nat) : (x.advanced j p).tickets.count k =
      x.tickets.count k + [j.callback.ticket].count k := by
  cases p with
  | done r => exact count_code [.conclude j r] idle rfl k
  | ask c r next =>
    have jobs := count_jobs (y := x.advanced j (.ask c r next)) idle idle rfl rfl k
    have more : (x.advanced j (.ask c r next)).jobTickets.count k =
        x.jobTickets.count k + [j.callback.ticket].count k :=
      count_ready x (.job j (.ask c r next)) .send k
    omega

theorem count_answered (idle : x.frames = []) (limit : Exchange.Timeout) (task : Task) (r : Reply)
    (k : Nat) : (x.answered limit task r).tickets.count k =
      x.tickets.count k + task.ticket?.toList.count k := by
  cases task with
  | job j p =>
    obtain ⟨result, e⟩ | ⟨q, e⟩ := x.answered_job_cases limit j p r
    · rw [e]
      exact count_code _ idle rfl k
    · rw [e]
      have jobs := count_jobs (y := { x with runnable := x.runnable ++ [(.job j q, .send)] })
        idle idle rfl rfl k
      have more := count_ready x (.job j q) .send k
      simp only [Task.ticket?] at more ⊢
      omega
  | refresh g =>
    cases r with
    | panic m => exact count_code _ idle rfl k
    | arrival a =>
      obtain ⟨none, stays⟩ := ticketsOf_refresh (refreshCode_answered g limit a).1
      rw [Worker.answered, count_code _ idle stays, none]
      rfl

/-- A turn moves callbacks about and loses none. -/
theorem count_turn {limit : Exchange.Timeout} {i : Turn} {es : List Entry}
    (step : TurnStep limit s x i y es) (idle : x.frames = []) (k : Nat) :
    y.tickets.count k = x.tickets.count k := by
  have polled {task : Task} {r : Ready} {rest : List (Task × Ready)}
      (h : x.runnable = (task, r) :: rest) : x.tickets.count k =
        ({ x with runnable := rest } : Worker).tickets.count k + task.ticket?.toList.count k := by
    have jobs := count_jobs (y := { x with runnable := rest }) idle idle rfl rfl k
    have := count_poll h k
    omega
  have dequeued {j : Job} {rest : List Job} (h : x.queue = j :: rest) : x.tickets.count k =
      ({ x with queue := rest } : Worker).tickets.count k + [j.callback.ticket].count k := by
    have jobs := count_jobs (y := { x with queue := rest }) idle idle rfl rfl k
    simp only [Worker.jobTickets, Worker.tasks, h, List.map_cons, List.cons_append,
      List.count_cons, List.count_nil] at jobs ⊢
    omega
  have readied (x' : Worker) (idle : x'.frames = []) (task : Task) (r : Ready) :
      ({ x' with runnable := x'.runnable ++ [(task, r)] } : Worker).tickets.count k =
        x'.tickets.count k + task.ticket?.toList.count k := by
    have jobs := count_jobs (y := { x' with runnable := x'.runnable ++ [(task, r)] })
      idle idle rfl rfl k
    have := count_ready x' task r k
    omega
  cases step with
  | pollStopped task r rest stopped h =>
    rw [polled h]
    exact count_cancelled (x := { x with runnable := rest }) idle task k
  | send task rest going h =>
    have jobs := count_jobs (x := { x with runnable := rest })
      (y := { x with runnable := rest, waiting := x.waiting ++ [task] }) idle idle rfl rfl k
    have moved : ({ x with runnable := rest, waiting := x.waiting ++ [task] } :
        Worker).jobTickets.count k = ({ x with runnable := rest } : Worker).jobTickets.count k +
          task.ticket?.toList.count k := by
      simp only [Worker.jobTickets, Worker.tasks, List.filterMap_append, List.filterMap_cons,
        List.filterMap_nil, List.count_append]
      cases task.ticket? with
      | none => simp
      | some n =>
        simp only [Option.toList_some]
        omega
    have := polled h
    omega
  | beginJob j p rest going h =>
    rw [polled h]
    exact count_advanced (x := { x with runnable := rest }) idle j p k
  | beginRefresh g rest going h =>
    rw [polled h]
    exact readied { x with runnable := rest } idle (.refresh g) .send
  | answered task r rest going h =>
    rw [polled h]
    exact count_answered (x := { x with runnable := rest }) idle limit task r k
  | interrupt i task stopped h =>
    have jobs := count_jobs (y := { x with waiting := x.waiting.eraseIdx i }) idle idle rfl rfl k
    have := count_interrupt h k
    have := count_cancelled (x := { x with waiting := x.waiting.eraseIdx i }) idle task k
    omega
  | wakeStopped asleep stopped =>
    exact count_code (x := { x with refreshing := .over }) [.setConnected false] idle rfl k
  | wake asleep going => exact readied { x with refreshing := .busy } idle (.refresh .info) .send
  | take j rest live h =>
    rw [dequeued h]
    exact readied { x with queue := rest } idle (.job j j.operation.procedure) .fresh
  | close live stopped =>
    have jobs := count_jobs (y := { x with phase := .closed }) idle idle (by simp [live]) rfl k
    have : ({ x with phase := .closed } : Worker).jobTickets = x.jobTickets := rfl
    rw [this] at jobs
    omega
  | reject j rest closed h =>
    rw [dequeued h]
    exact count_code (x := { x with queue := rest })
      [.complete j.callback (j.outcome (.error .interrupted))] idle rfl k
  | finish closed queue runnable waiting spent =>
    rw [tickets_idle idle, Worker.tickets]
    simp [ticketsOf_cons, Frame.ticket?, Worker.owes, closed, Worker.jobTickets, Worker.tasks]

theorem count_reply {i : Nat} {task : Task} (h : x.waiting[i]? = some task) (r : Ready) (k : Nat) :
    ({ x with
      waiting := x.waiting.eraseIdx i
      runnable := x.runnable ++ [(task, r)] } : Worker).tickets.count k = x.tickets.count k := by
  have taken := count_interrupt h k
  have added := count_ready { x with waiting := x.waiting.eraseIdx i } task r k
  have same : ({ x with
      waiting := x.waiting.eraseIdx i
      runnable := x.runnable ++ [(task, r)] } : Worker).owes = x.owes := rfl
  simp only [Worker.tickets, List.count_append, same] at added ⊢
  omega

theorem count_frames (fs : List Frame) (hf : x.frames = f :: rest) (still : f.decides = false)
    (stays : fs.any Frame.decides = false) (k : Nat) :
    ({ x with frames := fs ++ rest } : Worker).tickets.count k + f.ticket?.toList.count k =
      x.tickets.count k + (ticketsOf fs).count k := by
  have owes : ({ x with frames := fs ++ rest } : Worker).owes = x.owes := by
    simp only [Worker.owes, List.any_append, stays, Bool.false_or, hf, List.any_cons, still]
  have jobs : ({ x with frames := fs ++ rest } : Worker).jobTickets = x.jobTickets := rfl
  rw [Worker.tickets, Worker.tickets, owes, jobs, hf, ticketsOf_cons]
  simp only [ticketsOf_append, List.count_append]
  omega

/-- Running a frame of a worker moves callbacks about and loses none. -/
theorem count_worker (h : w.Sound) (hx : w.workers[s]? = some x) (hf : x.frames = f :: rest)
    (step : FrameStep w (.worker s) f u fs) (k : Nat) :
    ((u.workers.modify s fun x => { x with frames := fs ++ rest }).flatMap Worker.tickets).count k +
        u.fired.count k + (List.range w.tickets).count k =
      (w.workers.flatMap Worker.tickets).count k + w.fired.count k +
        (List.range u.tickets).count k := by
  cases own : f.isOwn with
  | false =>
    obtain ⟨y, hy, touched⟩ := step.touched own hx
    have moved := step.balance own k
    have set := count_flatMap_set (k := k) (y := { y with frames := fs ++ rest })
      Worker.tickets hy
    -- the code of calls and of notifications decides nothing about a worker
    have code := count_frames _ (touched.frames.trans hf) (f.decides_of_foreign own)
      (step.decides own) k
    rw [modify_eq_set hy]
    omega
  | true =>
    cases step with
    | own f r z x' c chain fs isHere hz step =>
      cases isHere
      rw [hx] at hz
      cases hz
      have same := count_own (h.courses s x hx) hf step k
      have set := count_flatMap_set (k := k) (y := { x' with frames := fs ++ rest })
        Worker.tickets hx
      rw [modify_set_self]
      simp only [World.fired]
      omega
    | leave r z isHere hz =>
      cases isHere
      rw [hx] at hz
      cases hz
      have set := count_flatMap_set (k := k)
        (y := { x with phase := .ended, refreshing := .over, frames := rest }) Worker.tickets hx
      -- it owed nothing before either, since it was about to leave
      have paid : x.owes = false := by
        rw [owes_eq, hf, ownCode_own own]
        simp [Frame.decides]
      have code : ({ x with phase := .ended, refreshing := .over, frames := rest } :
          Worker).tickets.count k = x.tickets.count k := by
        rw [Worker.tickets, Worker.tickets, paid, hf, ticketsOf_own own]
        rfl
      rw [modify_set_self]
      simp only [World.fired, List.filterMap_cons, Entry.called?, List.nil_append]
      omega
    | markFailed =>
      have set := count_flatMap_set (k := k) (y := { x with frames := rest }) Worker.tickets hx
      have code := count_frames [] hf rfl rfl k
      rw [modify_eq_set hx]
      simp only [World.fired, Frame.ticket?, ticketsOf_nil, Option.toList_none, List.count_nil,
        List.nil_append] at code ⊢
      omega
    | stray f own none => exact absurd hx (none s x rfl)
    | _ => cases own

/-- Every step of a world moves callbacks about: those that are drawn are added to those that wait,
and those that are called are taken from them. -/
theorem WorldStep.count (h : w.Sound) (step : WorldStep w m v) (k : Nat) :
    v.outstanding.count k + v.fired.count k + (List.range w.tickets).count k =
      w.outstanding.count k + w.fired.count k + (List.range v.tickets).count k := by
  simp only [World.outstanding, List.count_append]
  cases step with
  | caller n f rest fs u hf ran =>
    have foreign : f.isOwn = false := by
      have callers := h.callers n
      rw [frames_caller hf] at callers
      by_contra own
      simp [ownCode_own (by simpa using own)] at callers
    have moved := ran.balance foreign k
    have set := count_flatMap_set (k := k) (y := fs ++ rest) ticketsOf hf
    rw [ticketsOf_cons, ticketsOf_append] at set
    simp only [List.count_append] at set
    rw [ran.callers]
    simp only [World.fired] at moved ⊢
    omega
  | worker s x f rest fs u hx hf ran =>
    have moved := count_worker h hx hf ran k
    rw [ran.callers]
    simp only [World.fired] at moved ⊢
    omega
  | call n a idle =>
    have set := count_flatMap_set (k := k) (y := [.script .caller [a]]) ticketsOf idle
    simp only [ticketsOf_cons, Frame.ticket?, ticketsOf_nil, Option.toList_none,
      List.append_nil, List.count_nil] at set
    simp only [World.fired]
    omega
  | release n hn idle held =>
    have empty : w.callers[n]? = some [] := by
      rw [List.getElem?_eq_getElem hn, idle _ (List.getElem_mem hn)]
    have set := count_flatMap_set (k := k) (y := [.beginShutdown .caller .shutdown]) ticketsOf empty
    simp only [ticketsOf_cons, Frame.ticket?, ticketsOf_nil, Option.toList_none,
      List.append_nil, List.count_nil] at set
    simp only [World.fired]
    omega
  | reply s i r x task hx ht fits =>
    have same := count_reply ht (.answered r) k
    have set := count_flatMap_set (k := k) (y := { x with
      waiting := x.waiting.eraseIdx i
      runnable := x.runnable ++ [(task, .answered r)] }) Worker.tickets hx
    simp only [World.withWorker, World.fired]
    omega
  | turn s i x y es hx idle stays turn =>
    have same := count_turn turn idle k
    have set := count_flatMap_set (k := k) (y := y) Worker.tickets hx
    have nothing : es.filterMap Entry.called? = [] := by cases turn <;> rfl
    simp only [World.withWorker, World.fired, List.filterMap_append, nothing, List.nil_append]
    omega

end Tickets

namespace World
variable {w v : World}

/-- Every callback that was drawn either waits in one place or was called once, and there are no
others. -/
def Accounted (w : World) : Prop := (w.outstanding ++ w.fired).Perm (List.range w.tickets)

theorem Accounted.of_untouched (h : w.Untouched) : w.Accounted := by
  obtain ⟨n, timeout, transport, reaction, kept, rfl⟩ := h
  simp [Accounted, outstanding, fired, initial]

theorem Accounted.step {m : Move} (h : w.Accounted) (sound : w.Sound) (step : WorldStep w m v) :
    v.Accounted := by
  refine List.perm_iff_count.mpr fun k => ?_
  have before := List.perm_iff_count.mp h k
  have moved := step.count sound k
  rw [List.count_append] at before ⊢
  omega

/-- Callbacks are accounted for in all worlds that can be reached. -/
theorem Accounted.of_reaches (first : w.Untouched) (h : w.Reaches v) : v.Accounted := by
  have both := h.keeps (P := fun v => v.Sound ∧ v.Accounted)
    ⟨.of_untouched first, .of_untouched first⟩
    fun u m v ⟨sound, accounted⟩ step => ⟨sound.step step, accounted.step sound step⟩
  exact both.2

end World

end RemoteNode.Session
