import RemoteNode.Proofs.Session.Alone
import RemoteNode.Proofs.Session.Outcomes
import RemoteNode.Proofs.Session.Reliability

/-! What an operation and the node say to each other. Wherever a run leads, whatever else goes on,
an operation has asked what its procedure alone asks after the replies that it was given, one
request at a time, and it is given what its procedure comes to, unless its worker was told to stop
or nobody served it. -/

namespace RemoteNode.Session

/-- What an entry of the log says in the dialogue of the operation that drew a ticket. -/
def Entry.message? (k : Nat) : Entry → Option Message
  | sent _ (.job j (.ask c r _)) => if j.callback.ticket = k then some (.request c r) else none
  | answered _ (.job j _) r => if j.callback.ticket = k then some (.reply r) else none
  | _ => none

/-- What the operation that drew a ticket and the node have said to each other, in order. -/
def dialogue (k : Nat) (log : List Entry) : List Message :=
  (log.filterMap (Entry.message? k)).reverse

/-- Why an operation is not given what its procedure comes to. -/
inductive Withheld (h : List (World × Move)) (j : Job) : Failure → Prop
  /-- A worker was told to stop that had the operation or was being brought it. -/
  | stopped (u : World) (m : Move) (s : Nat) (x : Worker) (past : (u, m) ∈ h)
    (hx : u.workers[s]? = some x) (stopped : x.stopped = true)
    (has : x.Holds j ∨ ∃ t, .enqueue s j ∈ u.frames t) : Withheld h j .interrupted
  /-- Nobody served when it was called. -/
  | refused (u : World) (t : Thread) (rest : List Frame) (e : Failure) (past : (u, .run t) ∈ h)
    (code : u.frames t = .dispatch j :: rest) (nobody : u.connection.server = .error e) :
    Withheld h j e
  /-- It was brought to a worker that had ended without being told to stop. -/
  | late (u : World) (t : Thread) (s : Nat) (x : Worker) (rest : List Frame)
    (past : (u, .run t) ∈ h) (code : u.frames t = .enqueue s j :: rest)
    (hx : u.workers[s]? = some x) (ended : x.phase = .ended) (going : x.stopped = false) :
    Withheld h j .interrupted

/-- What an operation is given: what its procedure comes to after the replies to its own requests,
or why that is withheld. -/
def Given (limit : Exchange.Timeout) (h : List (World × Move)) (log : List Entry) (cb : Callback)
    (o : Operation) (result : Except Failure o.Result) : Prop :=
  o.procedure.LeadsTo limit (dialogue cb.ticket log) (.done result) ∨
    o.procedure.Speaks limit (dialogue cb.ticket log) ∧
      ∃ e, result = .error e ∧ Withheld h ⟨o, cb⟩ e

/-- What is said for an operation fits the frame that holds its callback. -/
def Frame.Fits (limit : Exchange.Timeout) (h : List (World × Move)) (log : List Entry) :
    Frame → Prop
  | dispatch j | enqueue _ j => dialogue j.callback.ticket log = []
  | conclude j result =>
    j.operation.procedure.LeadsTo limit (dialogue j.callback.ticket log) (.done result)
  | complete cb (.operation o result) => Given limit h log cb o result
  | _ => True

/-- What is said for an operation fits its task, by why the task may go on. -/
def Task.Fits (limit : Exchange.Timeout) (log : List Entry) : Task → Ready → Prop
  | refresh _, _ => True
  | job j p, .fresh => j.operation.procedure.LeadsTo limit (dialogue j.callback.ticket log) p
  | job j p, .send =>
    j.operation.procedure.LeadsTo limit (dialogue j.callback.ticket log) p ∧
      ∃ c r next, p = .ask c r next
  | job j p, .answered _ => j.operation.procedure.Awaits limit (dialogue j.callback.ticket log) p

/-- What is said for an operation fits its task whose request is on its way. -/
def Task.Waits (limit : Exchange.Timeout) (log : List Entry) : Task → Prop
  | refresh _ => True
  | job j p => j.operation.procedure.Awaits limit (dialogue j.callback.ticket log) p

section Sayings
variable {w u v : World} {m : Move} {t : Thread} {s k : Nat} {x y : Worker} {f : Frame}
  {fs rest : List Frame} {task : Task} {r : Ready} {log es : List Entry} {e : Entry}
  {limit : Exchange.Timeout} {h h' : List (World × Move)}

/-- Only an exchange of its own task adds to the dialogue of an operation. -/
theorem exchange_of_message {msg : Message} (he : e.message? k = some msg) :
    ∃ s task, e.exchange? = some (s, task) ∧ task.ticket? = some k := by
  unfold Entry.message? at he
  split at he
  · split at he
    · rename_i s j c r next same
      exact ⟨s, _, rfl, congrArg some same⟩
    · cases he
  · split at he
    · rename_i s j p r same
      exact ⟨s, _, rfl, congrArg some same⟩
    · cases he
  · cases he

theorem dialogue_of_message {msg : Message} (said : e.message? k = some msg) :
    dialogue k (e :: log) = dialogue k log ++ [msg] := by
  rw [dialogue, List.filterMap_cons_some said, List.reverse_cons, dialogue]

theorem dialogue_of_quiet
    (quiet : ∀ e ∈ es, ∀ s task, e.exchange? = some (s, task) → task.ticket? ≠ some k) :
    dialogue k (es ++ log) = dialogue k log := by
  have none : es.filterMap (Entry.message? k) = [] := by
    refine List.filterMap_eq_nil_iff.mpr fun e inLog => ?_
    cases said : e.message? k with
    | none => rfl
    | some msg =>
      obtain ⟨s, task, exchange, ticket⟩ := exchange_of_message said
      exact absurd ticket (quiet e inLog s task exchange)
  rw [dialogue, dialogue, List.filterMap_append, none, List.nil_append]

theorem dialogue_of_silent (silent : w.Silent k) : dialogue k w.log = [] := by
  have same : dialogue k (w.log ++ []) = dialogue k [] := dialogue_of_quiet silent
  rwa [List.append_nil] at same

/-- A step adds to a dialogue only where a worker goes on with the first of its ready tasks. -/
theorem WorldStep.dialogue (step : WorldStep w m v) (k : Nat) :
    dialogue k v.log = dialogue k w.log ∨ ∃ s x task r rest, m = .turn s .poll ∧
      w.workers[s]? = some x ∧ x.runnable = (task, r) :: rest ∧ task.ticket? = some k := by
  cases m with
  | run t =>
    obtain ⟨f, rest, fs, u, -, ran, rfl, -⟩ := step.ran
    obtain ⟨es, he, none⟩ := ran.log
    left
    rw [log_setFrames, he]
    refine dialogue_of_quiet fun e inLog s task exchange => ?_
    rw [none e inLog] at exchange
    cases exchange
  | call | release | reply => cases step; exact .inl rfl
  | turn s i =>
    cases step with
    | turn s i x y es hx idle stays turn =>
      by_cases mine : ∃ task r rest, i = .poll ∧ x.runnable = (task, r) :: rest ∧
          task.ticket? = some k
      · obtain ⟨task, r, rest, rfl, ready, ticket⟩ := mine
        exact .inr ⟨s, x, task, r, rest, rfl, hx, ready, ticket⟩
      · left
        refine dialogue_of_quiet fun e inLog s' task exchange ticket => mine ?_
        cases turn with
        | send task' rest going ready | answered task' r' rest going ready =>
          rw [List.mem_singleton.mp inLog] at exchange
          cases exchange
          exact ⟨task, _, rest, rfl, ready, ticket⟩
        | _ => cases inLog

namespace World.Accounted

/-- No worker has an operation twice. -/
theorem job_once (h : w.Accounted) (hx : w.workers[s]? = some x) (k : Nat) :
    x.jobTickets.count k ≤ 1 := by
  have most := h.le_one k
  have part := count_le_flatMap (k := k) Worker.tickets hx
  simp only [outstanding, Worker.tickets, List.count_append] at most part
  omega

theorem first_ready (h : w.Accounted) (hx : w.workers[s]? = some x)
    {rest : List (Task × Ready)} (ready : x.runnable = (task, r) :: rest)
    (job : k ∈ ({ x with runnable := rest } : Worker).jobTickets) : task.ticket? ≠ some k := by
  intro ticket
  have most := h.job_once hx k
  have moved := count_poll ready k
  have least := List.count_pos_iff.mpr job
  simp only [ticket, Option.toList_some, List.count_singleton_self] at moved
  omega

theorem dialogue_frame (h : w.Accounted) (step : WorldStep w m v) (hf : f ∈ w.frames t)
    (ticket : f.ticket? = some k) : dialogue k v.log = dialogue k w.log := by
  obtain same | ⟨s, x, task, r, rest, -, hx, ready, mine⟩ := step.dialogue k
  · exact same
  · refine absurd ?_ (h.not_job hf ticket hx)
    simp [Worker.jobTickets, Worker.tasks, ready, mine]

theorem dialogue_fired (h : w.Accounted) (step : WorldStep w m v) (fired : k ∈ w.fired) :
    dialogue k v.log = dialogue k w.log := by
  obtain same | ⟨s, x, task, r, rest, -, hx, ready, mine⟩ := step.dialogue k
  · exact same
  · refine absurd fired (h.not_fired (mem_outstanding_of_job hx ?_))
    simp [Worker.jobTickets, Worker.tasks, ready, mine]

theorem dialogue_job (h : w.Accounted) (step : WorldStep w m v) (hx : w.workers[s]? = some x)
    (job : k ∈ x.jobTickets)
    (other : m = .turn s .poll → ∀ task r rest, x.runnable = (task, r) :: rest →
      task.ticket? ≠ some k) : dialogue k v.log = dialogue k w.log := by
  obtain same | ⟨s', x', task, r, rest, rfl, hx', ready, mine⟩ := step.dialogue k
  · exact same
  · have here : s = s' := h.one_worker hx hx' job
      (by simp [Worker.jobTickets, Worker.tasks, ready, mine])
    subst here
    rw [hx] at hx'
    cases hx'
    exact absurd mine (other rfl task r rest ready)

end World.Accounted

/-- What is said for its operations fits where a worker has them. -/
structure Worker.Speaks (limit : Exchange.Timeout) (log : List Entry) (x : Worker) : Prop where
  queued : ∀ j ∈ x.queue, dialogue j.callback.ticket log = []
  ready : ∀ task r, (task, r) ∈ x.runnable → task.Fits limit log r
  waiting : ∀ task ∈ x.waiting, task.Waits limit log

theorem Withheld.later {j : Job} {e : Failure} (why : Withheld h j e) (past : h ⊆ h') :
    Withheld h' j e := by
  cases why with
  | stopped u m s x inPast hx stopped has => exact .stopped u m s x (past inPast) hx stopped has
  | refused u t rest e inPast code nobody => exact .refused u t rest e (past inPast) code nobody
  | late u t s x rest inPast code hx ended going =>
    exact .late u t s x rest (past inPast) code hx ended going

theorem Given.later {cb : Callback} {o : Operation} {result : Except Failure o.Result}
    {log' : List Entry} (given : Given limit h log cb o result)
    (same : dialogue cb.ticket log' = dialogue cb.ticket log) (past : h ⊆ h') :
    Given limit h' log' cb o result := by
  rw [Given, same]
  exact given.imp_right (.imp_right (.imp fun e => .imp_right fun why => why.later past))

theorem Frame.Fits.later {log' : List Entry} (fits : f.Fits limit h log)
    (same : ∀ k, f.ticket? = some k → dialogue k log' = dialogue k log) (past : h ⊆ h') :
    f.Fits limit h' log' := by
  cases f with
  | dispatch j | enqueue s j => exact (same _ rfl).trans fits
  | conclude j result =>
    rw [Frame.Fits, same _ rfl]
    exact fits
  | complete cb o =>
    cases o with
    | init => trivial
    | operation o result => exact Given.later fits (same _ rfl) past
  | _ => trivial

theorem Frame.Fits.of_own (own : f.isOwn = true) : f.Fits limit h log := by
  cases f <;> trivial

theorem Task.Fits.later {log' : List Entry} (fits : task.Fits limit log r)
    (same : ∀ k, task.ticket? = some k → dialogue k log' = dialogue k log) :
    task.Fits limit log' r := by
  cases task with
  | refresh g => trivial
  | job j p =>
    have same := same _ rfl
    cases r <;> simpa only [Task.Fits, same] using fits

theorem Task.Waits.later {log' : List Entry} (waits : task.Waits limit log)
    (same : ∀ k, task.ticket? = some k → dialogue k log' = dialogue k log) :
    task.Waits limit log' := by
  cases task with
  | refresh g => trivial
  | job j p =>
    rw [Task.Waits, same _ rfl]
    exact waits

/-- What is left of a job is what its procedure alone has left. -/
theorem Task.Fits.left {j : Job} {p : Procedure j.operation.Result}
    (fits : (Task.job j p).Fits limit log r) :
    j.operation.procedure.LeadsTo limit (dialogue j.callback.ticket log) p ∨
      j.operation.procedure.Awaits limit (dialogue j.callback.ticket log) p := by
  cases r with
  | fresh => exact .inl fits
  | send => exact .inl fits.1
  | answered => exact .inr fits

namespace Worker.Speaks
variable {log' : List Entry} {j : Job} {p : Procedure j.operation.Result}

theorem later (speaks : x.Speaks limit log)
    (same : ∀ k ∈ x.jobTickets, dialogue k log' = dialogue k log) : x.Speaks limit log' := by
  constructor
  · intro j queued
    exact (same _ (mem_jobTickets (.inl queued))).trans (speaks.queued j queued)
  · intro task r ready
    refine (speaks.ready task r ready).later fun k ticket => same k ?_
    exact List.mem_append_right _ (List.mem_filterMap.mpr
      ⟨task, List.mem_append_left _ (List.mem_map.mpr ⟨_, ready, rfl⟩), ticket⟩)
  · intro task waits
    refine (speaks.waiting task waits).later fun k ticket => same k ?_
    exact List.mem_append_right _ (List.mem_filterMap.mpr
      ⟨task, List.mem_append_right _ waits, ticket⟩)

/-- What was said for a job is what its procedure alone has exchanged so far. -/
theorem speaks (speaks : x.Speaks limit log) (there : .job j p ∈ x.tasks) :
    j.operation.procedure.Speaks limit (dialogue j.callback.ticket log) := by
  rcases List.mem_append.mp there with ready | waits
  · obtain ⟨⟨task, r⟩, inReady, rfl⟩ := List.mem_map.mp ready
    exact ⟨p, (speaks.ready _ r inReady).left⟩
  · exact ⟨p, .inr (speaks.waiting _ waits)⟩

theorem popped {rest : List (Task × Ready)} (speaks : x.Speaks limit log)
    (ready : x.runnable = (task, r) :: rest) :
    ({ x with runnable := rest } : Worker).Speaks limit log :=
  ⟨speaks.queued, fun task r there => speaks.ready task r (ready ▸ List.mem_cons_of_mem _ there),
    speaks.waiting⟩

theorem concat (speaks : x.Speaks limit log) (fits : task.Fits limit log r) :
    ({ x with runnable := x.runnable ++ [(task, r)] } : Worker).Speaks limit log := by
  refine ⟨speaks.queued, fun task' r' there => ?_, speaks.waiting⟩
  rcases List.mem_append.mp there with old | new
  · exact speaks.ready task' r' old
  · obtain ⟨rfl, rfl⟩ := Prod.mk.inj (List.mem_singleton.mp new)
    exact fits

theorem asked (speaks : x.Speaks limit log) (g : Stage) :
    ({ x with runnable := x.runnable ++ [(.refresh g, .send)] } : Worker).Speaks limit log :=
  speaks.concat trivial

theorem advanced (speaks : x.Speaks limit log) (idle : x.frames = [])
    (said : j.operation.procedure.LeadsTo limit (dialogue j.callback.ticket log) p) :
    (x.advanced j p).Speaks limit log ∧ ∀ f ∈ (x.advanced j p).frames, f.Fits limit h log := by
  cases p with
  | done result =>
    refine ⟨⟨speaks.queued, speaks.ready, speaks.waiting⟩, fun f inCode => ?_⟩
    rw [List.mem_singleton.mp inCode]
    exact said
  | ask c q next =>
    refine ⟨speaks.concat ⟨said, c, q, next, rfl⟩, fun f inCode => ?_⟩
    rw [show (x.advanced j (.ask c q next)).frames = x.frames from rfl, idle] at inCode
    cases inCode

end Worker.Speaks

/-- An operation of a worker that was told to stop is interrupted. -/
theorem fits_interrupted {j : Job} (past : (w, m) ∈ h) (hx : w.workers[s]? = some x)
    (stopped : x.stopped = true) (has : x.Holds j)
    (said : j.operation.procedure.Speaks limit (dialogue j.callback.ticket log)) :
    (Frame.complete j.callback (j.outcome (.error .interrupted))).Fits limit h log :=
  .inr ⟨said, _, rfl, .stopped w m s x past hx stopped (.inl has)⟩

theorem fits_cancelled {z : Worker} (past : (w, m) ∈ h) (hx : w.workers[s]? = some x)
    (stopped : x.stopped = true) (has : task ∈ x.tasks)
    (said : ∀ j p, task = .job j p →
      j.operation.procedure.Speaks limit (dialogue j.callback.ticket log)) :
    ∀ f ∈ (z.cancelled task).frames, f.Fits limit h log := by
  intro f inCode
  cases task with
  | job j p =>
    rw [List.mem_singleton.mp inCode]
    exact fits_interrupted past hx stopped (.inr ⟨p, has⟩) (said j p rfl)
  | refresh g =>
    rw [Worker.cancelled] at inCode
    split at inCode <;> rw [List.mem_singleton.mp inCode] <;> trivial

theorem speaks_cancelled {z : Worker} (speaks : z.Speaks limit log) (task : Task) :
    (z.cancelled task).Speaks limit log := by
  obtain ⟨q, fs, same⟩ := z.cancelled_eq task
  rw [same]
  exact ⟨speaks.queued, speaks.ready, speaks.waiting⟩

theorem answered_eq_advanced (x : Worker) (limit : Exchange.Timeout) (j : Job) (c : Command)
    (q : c.Request) (next : c.Content → Procedure j.operation.Result) (r : Reply) :
    x.answered limit (.job j (.ask c q next)) r =
      x.advanced j ((Procedure.ask c q next).after limit r) := by
  cases r with
  | panic message => rfl
  | arrival a =>
    simp only [Worker.answered, Procedure.after]
    cases answer c limit a <;> rfl

theorem Task.Fits.sent (fits : task.Fits limit log .send) (s : Nat) :
    task.Waits limit (.sent s task :: log) := by
  cases task with
  | refresh g => trivial
  | job j p =>
    obtain ⟨said, c, q, next, rfl⟩ := fits
    have more : dialogue j.callback.ticket (.sent s (.job j (.ask c q next)) :: log) =
        dialogue j.callback.ticket log ++ [.request c q] :=
      dialogue_of_message (if_pos rfl)
    rw [Task.Waits, more]
    exact said.request

/-- A task that is given the reply to its request goes on with it. -/
theorem Worker.Speaks.answered {reply : Reply}
    (speaks : x.Speaks limit (.answered s task reply :: log)) (idle : x.frames = [])
    (fits : task.Fits limit log (.answered reply)) :
    (x.answered limit task reply).Speaks limit (.answered s task reply :: log) ∧
      ∀ f ∈ (x.answered limit task reply).frames,
        f.Fits limit h (.answered s task reply :: log) := by
  cases task with
  | refresh g =>
    cases reply with
    | panic message =>
      refine ⟨⟨speaks.queued, speaks.ready, speaks.waiting⟩, fun f inCode => ?_⟩
      rw [List.mem_singleton.mp inCode]
      trivial
    | arrival a =>
      refine ⟨⟨speaks.queued, speaks.ready, speaks.waiting⟩, fun f inCode => ?_⟩
      have own := (refreshCode_answered g limit a).2
      change f ∈ World.refreshAnswered g limit a at inCode
      rw [← own] at inCode
      exact .of_own (List.mem_filter.mp inCode).2
  | job j p =>
    have awaits : j.operation.procedure.Awaits limit (dialogue j.callback.ticket log) p := fits
    have more : dialogue j.callback.ticket (.answered s (.job j p) reply :: log) =
        dialogue j.callback.ticket log ++ [.reply reply] :=
      dialogue_of_message (if_pos rfl)
    have said := awaits.reply reply
    rw [← more] at said
    obtain ⟨es', c, q, next, -, rfl, -⟩ := awaits
    rw [answered_eq_advanced]
    exact speaks.advanced idle said

/-- What an idle worker does keeps what is said for its operations fitting. -/
theorem TurnStep.speaks {i : Turn} (step : TurnStep w.timeout s x i y es) (accounted : w.Accounted)
    (course : x.OnCourse) (hx : w.workers[s]? = some x) (idle : x.frames = [])
    (past : (w, m) ∈ h) (speaks : x.Speaks w.timeout w.log) :
    y.Speaks w.timeout (es ++ w.log) ∧ ∀ f ∈ y.frames, f.Fits w.timeout h (es ++ w.log) := by
  have still {fs : List Frame} (none : fs = []) : ∀ f ∈ fs, f.Fits w.timeout h w.log := by
    intro f inCode
    rw [none] at inCode
    cases inCode
  have firstTask {task : Task} {r : Ready} {rest : List (Task × Ready)}
      (ready : x.runnable = (task, r) :: rest) : task ∈ x.tasks := by simp [Worker.tasks, ready]
  -- of an entry for the first ready task, the others hear nothing
  have others {task : Task} {r : Ready} {rest : List (Task × Ready)} {e : Entry}
      (ready : x.runnable = (task, r) :: rest) (exchange : e.exchange? = some (s, task)) :
      ({ x with runnable := rest } : Worker).Speaks w.timeout ([e] ++ w.log) := by
    refine (speaks.popped ready).later fun k job =>
      dialogue_of_quiet fun e' inLog s' task' other => ?_
    rw [List.mem_singleton.mp inLog, exchange] at other
    cases other
    exact accounted.first_ready hx ready job
  cases step with
  | pollStopped task r rest stopped ready =>
    refine ⟨speaks_cancelled (speaks.popped ready) task,
      fits_cancelled past hx stopped (firstTask ready) ?_⟩
    rintro j p rfl
    exact ⟨p, (speaks.ready _ r (by rw [ready]; exact List.mem_cons_self ..)).left⟩
  | interrupt i task stopped waits =>
    have inWaiting := List.mem_of_getElem? waits
    have rest : ({ x with waiting := x.waiting.eraseIdx i } : Worker).Speaks w.timeout w.log :=
      ⟨speaks.queued, speaks.ready, fun task' there =>
        speaks.waiting task' (List.mem_of_mem_eraseIdx there)⟩
    refine ⟨speaks_cancelled rest task,
      fits_cancelled past hx stopped (List.mem_append_right _ inWaiting) ?_⟩
    rintro j p rfl
    exact ⟨p, .inr (speaks.waiting _ inWaiting)⟩
  | send task rest going ready =>
    refine ⟨?_, fun f inCode => absurd inCode (by simp [idle])⟩
    have rest := others (e := .sent s task) ready rfl
    refine ⟨rest.queued, rest.ready, fun task' there => ?_⟩
    rcases List.mem_append.mp there with old | new
    · exact rest.waiting task' old
    · rw [List.mem_singleton.mp new]
      exact (speaks.ready task _ (by rw [ready]; exact List.mem_cons_self ..)).sent s
  | beginJob j p rest going ready =>
    refine (speaks.popped ready).advanced idle ?_
    exact speaks.ready _ .fresh (by rw [ready]; exact List.mem_cons_self ..)
  | beginRefresh g rest going ready =>
    exact ⟨(speaks.popped ready).asked g, still idle⟩
  | answered task r rest going ready =>
    have rest := others (e := .answered s task r) ready rfl
    exact rest.answered idle (speaks.ready _ _ (by rw [ready]; exact List.mem_cons_self ..))
  | wakeStopped =>
    refine ⟨⟨speaks.queued, speaks.ready, speaks.waiting⟩, fun f inCode => ?_⟩
    rw [List.mem_singleton.mp inCode]
    trivial
  | wake =>
    have next : ({ x with refreshing := .busy } : Worker).Speaks w.timeout w.log :=
      ⟨speaks.queued, speaks.ready, speaks.waiting⟩
    exact ⟨next.asked .info, still idle⟩
  | take j rest live queue =>
    have next : ({ x with queue := rest } : Worker).Speaks w.timeout w.log :=
      ⟨fun j there => speaks.queued j (queue ▸ List.mem_cons_of_mem _ there), speaks.ready,
        speaks.waiting⟩
    have fits : (Task.job j j.operation.procedure).Fits w.timeout w.log .fresh := by
      rw [Task.Fits, speaks.queued j (by rw [queue]; exact List.mem_cons_self ..)]
      exact .start
    exact ⟨next.concat fits, still idle⟩
  | close => exact ⟨⟨speaks.queued, speaks.ready, speaks.waiting⟩, still idle⟩
  | reject j rest closed queue =>
    have inQueue : j ∈ x.queue := by rw [queue]; exact List.mem_cons_self ..
    refine ⟨⟨fun j there => speaks.queued j (queue ▸ List.mem_cons_of_mem _ there), speaks.ready,
      speaks.waiting⟩, fun f inCode => ?_⟩
    have said : j.operation.procedure.Speaks w.timeout (dialogue j.callback.ticket w.log) := by
      rw [speaks.queued j inQueue]
      exact .start
    rw [List.mem_singleton.mp inCode]
    exact fits_interrupted past hx (course.closed closed) (.inl inQueue) said
  | finish =>
    refine ⟨⟨speaks.queued, speaks.ready, speaks.waiting⟩, fun f inCode => ?_⟩
    rw [List.mem_singleton.mp inCode]
    trivial

end Sayings

namespace World

/-- What is said for every operation fits where it is. -/
structure Conversing (h : List (World × Move)) (w : World) : Prop where
  code : ∀ t, ∀ f ∈ w.frames t, f.Fits w.timeout h w.log
  workers : ∀ (s : Nat) (x : Worker), w.workers[s]? = some x → x.Speaks w.timeout w.log
  given : ∀ cb o result b, .completed cb (.operation o result) b ∈ w.log →
    Given w.timeout h w.log cb o result

section Conversing
variable {w v : World} {m : Move} {t : Thread} {s : Nat} {x y : Worker} {h : List (World × Move)}

theorem completed_source {cb : Callback} {o : Outcome} {b : Bool} (step : WorldStep w m v)
    (here : .completed cb o b ∈ v.log) : .completed cb o b ∈ w.log ∨
      ∃ t rest, m = .run t ∧ w.frames t = .complete cb o :: rest := by
  cases m with
  | run t =>
    obtain ⟨f, rest, fs, u, code, ran, rfl, -⟩ := step.ran
    rw [log_setFrames] at here
    cases ran with
    | complete cb' o' =>
      rcases List.mem_cons.mp here with new | old
      · cases new
        exact .inr ⟨t, rest, rfl, code⟩
      · exact .inl old
    | init | operate | returning | deliver | leave =>
      left
      simpa [World.draw, World.record] using here
    | register | unregister | unregisterAwait | notifyNobody | notify | delivered =>
      left
      simpa [World.record, World.setRegistry_eq, World.setDelivery_eq] using here
    | _ => exact .inl here
  | call | release | reply =>
    cases step
    exact .inl here
  | turn s i =>
    cases step with
    | turn s i x y es hx idle stays turn =>
      left
      cases turn <;> simpa using here

theorem speaks_quiet (conv : Conversing h w) (accounted : w.Accounted) (step : WorldStep w m v)
    (hx : w.workers[s]? = some x) (hy : v.workers[s]? = some y) (worker : WorkerStep w m s x y)
    (away : ∀ i, m ≠ .turn s i) : y.Speaks w.timeout v.log := by
  have before : x.Speaks w.timeout v.log := (conv.workers s x hx).later fun k job =>
    accounted.dialogue_job step hx job fun here => absurd here (away _)
  have queued : ∀ j ∈ y.queue, dialogue j.callback.ticket v.log = [] := by
    intro j there
    obtain old | ⟨t, rest, rfl, code⟩ := step.queued hx hy away there
    · exact before.queued j old
    · have inCode : .enqueue s j ∈ w.frames t := by rw [code]; exact List.mem_cons_self ..
      exact (accounted.dialogue_frame step inCode rfl).trans (conv.code t _ inCode)
  cases worker with
  | others y away touched =>
    exact ⟨queued, touched.runnable ▸ before.ready, touched.waiting ▸ before.waiting⟩
  | foreign f rest fs u y here hf ran notOwn touched =>
    exact ⟨queued, touched.runnable ▸ before.ready, touched.waiting ▸ before.waiting⟩
  | own f rest fs x' c chain here hf own =>
    cases own with
    | connect | askHeader | askPool =>
      exact ⟨queued, (before.asked _).ready, before.waiting⟩
    | _ => exact ⟨queued, before.ready, before.waiting⟩
  | markFailed | leave => exact ⟨queued, before.ready, before.waiting⟩
  | reply i r task here waits fits =>
    have rest : ({ x with waiting := x.waiting.eraseIdx i } : Worker).Speaks w.timeout v.log :=
      ⟨before.queued, before.ready, fun task' there =>
        before.waiting task' (List.mem_of_mem_eraseIdx there)⟩
    have told : task.Fits w.timeout v.log (.answered r) := by
      have waits := before.waiting task (List.mem_of_getElem? waits)
      cases task with
      | refresh g => trivial
      | job j p => exact waits
    exact rest.concat told
  | turn i y es here => exact absurd here (away i)

namespace Conversing

theorem of_untouched (first : w.Untouched) : Conversing [] w := by
  constructor
  · intro t f inCode
    rw [first.frames] at inCode
    cases inCode
  · intro s x hx
    rw [first.workers] at hx
    cases hx
  · intro cb o result b here
    rw [first.log] at here
    cases here

theorem pushed {f g : Frame} {rest fs : List Frame} {u : World} (conv : Conversing h w)
    (sound : w.Sound) (unsent : w.Unsent) (peopled : w.Peopled) (code : w.frames t = f :: rest)
    (ran : FrameStep w t f u fs) (here : g ∈ fs) :
    g.Fits w.timeout ((w, .run t) :: h) w.log := by
  have fits := conv.code t f (by rw [code]; exact List.mem_cons_self ..)
  have past : (w, .run t) ∈ (w, .run t) :: h := List.mem_cons_self ..
  have unsaid {j : Job} (none : dialogue j.callback.ticket w.log = []) :
      j.operation.procedure.Speaks w.timeout (dialogue j.callback.ticket w.log) := by
    rw [none]
    exact .start
  cases ran with
  | operate src label o after rest =>
    simp only [List.mem_cons, List.not_mem_nil, or_false] at here
    obtain rfl | rfl | rfl := here
    · exact dialogue_of_silent (unsent.drawn _ (Nat.le_refl _))
    · trivial
    · trivial
  | dispatch j s served =>
    rw [List.mem_singleton.mp here]
    exact fits
  | refuse j e nobody =>
    rw [List.mem_singleton.mp here]
    exact .inr ⟨unsaid fits, e, rfl, .refused w t rest e past code nobody⟩
  | tooLate s j closed =>
    have inCode : .enqueue s j ∈ w.frames t := by rw [code]; exact List.mem_cons_self ..
    obtain ⟨x, hx⟩ : ∃ x, w.workers[s]? = some x :=
      ⟨_, List.getElem?_eq_getElem (peopled.brought t s j inCode)⟩
    rw [List.mem_singleton.mp here]
    refine .inr ⟨unsaid fits, _, rfl, ?_⟩
    cases going : x.stopped with
    | true => exact .stopped w _ s x past hx going (.inr ⟨t, inCode⟩)
    | false =>
      have ended : x.phase = .ended := by
        have closed := closed x hx
        simp only [Worker.isClosed, Bool.or_eq_true, decide_eq_true_eq] at closed
        obtain closed | ended := closed
        · rw [(sound.courses s x hx).closed closed] at going
          cases going
        · exact ended
      exact .late w t s x rest past code hx ended going
  | conclude j result =>
    rw [List.mem_singleton.mp here]
    exact .inl fits
  | own f s x x' c chain fs isHere hx own =>
    cases own with
    | notePeers | noteKnown | noteHeader | notePool =>
      split at here <;> simp at here <;> grind [Frame.Fits]
    | _ => simp at here <;> grind [Frame.Fits]
  | _ => simp at here <;> grind [Frame.Fits]

theorem step (conv : Conversing h w) (sound : w.Sound) (accounted : w.Accounted)
    (unsent : w.Unsent) (peopled : w.Peopled) (step : WorldStep w m v) :
    Conversing ((w, m) :: h) v := by
  have limit : v.timeout = w.timeout := step.settings.2
  have kept {t : Thread} {f : Frame} (inCode : f ∈ w.frames t) :
      f.Fits w.timeout ((w, m) :: h) v.log :=
    (conv.code t f inCode).later (fun k ticket => accounted.dialogue_frame step inCode ticket)
      (List.subset_cons_self ..)
  have past : (w, m) ∈ (w, m) :: h := List.mem_cons_self ..
  constructor
  · intro t f inCode
    rw [limit]
    have thread := step.threadStep t
    generalize hw : w.frames t = code, hv : v.frames t = code' at thread inCode
    cases thread with
    | same => exact kept (hw ▸ inCode)
    | run g rest fs u here _ ran result =>
      rcases List.mem_append.mp inCode with here' | below
      · subst here
        have quiet (k : Nat) : dialogue k v.log = dialogue k w.log := by
          obtain same | ⟨s, x, task, r, rest, turn, -⟩ := step.dialogue k
          · exact same
          · cases turn
        exact (conv.pushed sound unsent peopled hw ran here').later (fun k _ => quiet k)
          (List.Subset.refl _)
      · exact kept (by rw [hw]; exact List.mem_cons_of_mem _ below)
    | call | release | started =>
      rw [List.mem_singleton.mp inCode]
      trivial
    | turn s i x x' es here turn hx idle =>
      subst here
      obtain ⟨y, hy, -⟩ := step.workerStep hx
      rw [← hv, frames_worker hy] at inCode
      obtain ⟨i', es', -, -, taken, log⟩ | ⟨away, -⟩ := step.turn_or_quiet hx hy
      · rw [log]
        exact (taken.speaks accounted (sound.courses s x hx) hx idle past (conv.workers s x hx)).2 f
          inCode
      · exact absurd turn (away i)
  · intro s y hy
    rw [limit]
    obtain ⟨x, hx, worker⟩ | ⟨-, t, cb, rest, -, -, rfl⟩ := step.cameFrom hy
    · obtain ⟨i, es, rfl, idle, taken, log⟩ | ⟨away, -⟩ := step.turn_or_quiet hx hy
      · rw [log]
        exact (taken.speaks accounted (sound.courses s x hx) hx idle past (conv.workers s x hx)).1
      · exact speaks_quiet conv accounted step hx hy worker away
    · exact ⟨by simp [Worker.new], by simp [Worker.new], by simp [Worker.new]⟩
  · intro cb o result b here
    rw [limit]
    obtain old | ⟨t, rest, rfl, code⟩ := completed_source step here
    · exact (conv.given cb o result b old).later
        (accounted.dialogue_fired step (Accounted.mem_fired old)) (List.subset_cons_self ..)
    · exact kept (f := .complete cb (.operation o result))
        (by rw [code]; exact List.mem_cons_self ..)

/-- Wherever a run leads, what is said for every operation fits where it is. -/
theorem of_trace {allowed : World → Move → Prop} {w₀ : World} (first : w₀.Untouched)
    (run : Trace allowed w₀ h w) : Conversing h w := by
  suffices all : w.Sound ∧ w.Accounted ∧ w.Unsent ∧ w.Peopled ∧ Conversing h w from all.2.2.2.2
  induction run with
  | nil =>
    exact ⟨.of_untouched first, .of_untouched first, .of_untouched first, .of_untouched first,
      .of_untouched first⟩
  | step m past may now ih =>
    obtain ⟨sound, accounted, unsent, peopled, conv⟩ := ih
    have step := worldStep_of_step now
    exact ⟨sound.step step, accounted.step sound step, unsent.step accounted step,
      peopled.step step, conv.step sound accounted unsent peopled step⟩

end Conversing

end Conversing

end World

end RemoteNode.Session
