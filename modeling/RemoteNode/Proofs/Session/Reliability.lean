import RemoteNode.Proofs.Session.Readiness

/-! Every operation gets one result, whatever else goes on: rejected at once where nobody may serve
it, interrupted when its worker is told to stop before it is done, and otherwise the result of its
procedure. -/

namespace RemoteNode.Session

/-- The frame brings a callback to a worker or to its result. -/
def Frame.goesTo (s : Nat) : Frame → Prop
  | enqueue r _ => r = s
  | conclude _ _ | complete _ _ => True
  | _ => False

namespace World

section Calls
variable {w u v : World} {m : Move} {t : Thread} {s k : Nat} {x : Worker} {j : Job}

/-- An operation is about to be sent because it was before or because it has just been called. -/
theorem dispatch_source (step : WorldStep w m v) (h : .dispatch j ∈ v.frames t) :
    .dispatch j ∈ w.frames t ∨ j.callback.ticket = w.tickets ∧ j.callback.thread = t := by
  obtain old | ⟨f, rest, u, fs, -, -, ran, pushed⟩ := (step.threadStep t).source rfl h
  · exact .inl old
  · cases ran with
    | operate src label o after rest =>
      simp only [List.mem_cons, Frame.dispatch.injEq, List.not_mem_nil, reduceCtorEq,
        or_false] at pushed
      subst pushed
      exact .inr ⟨rfl, rfl⟩
    | own f s x x' c chain fs isHere hx own => cases own <;> simp at pushed
    | _ => simp at pushed

theorem tickets_le (step : WorldStep w m v) : w.tickets ≤ v.tickets := by
  cases m with
  | run t =>
    obtain ⟨f, rest, fs, u, -, ran, rfl, -⟩ := step.ran
    have same : (u.setFrames t (fs ++ rest)).tickets = u.tickets := by cases t <;> rfl
    rw [same]
    cases ran with
    | init | operate => exact Nat.le_succ _
    | register | unregister | unregisterAwait | notifyNobody | notify | delivered =>
      simp [World.record, World.setRegistry_eq, World.setDelivery_eq]
    | _ => exact Nat.le_refl _
  | call | release | reply | turn => cases step; exact Nat.le_refl _

/-- Operations that were not sent yet are on the threads that asked for them, and the node was asked
nothing for them. -/
structure Unsent (w : World) : Prop where
  thread : ∀ t j, .dispatch j ∈ w.frames t → j.callback.thread = t
  silent : ∀ t j, .dispatch j ∈ w.frames t → w.Silent j.callback.ticket
  drawn : ∀ k, w.tickets ≤ k → w.Silent k

theorem Unsent.of_untouched (h : w.Untouched) : w.Unsent := by
  refine ⟨fun t j here => ?_, fun t j here => ?_, fun k _ e inLog => ?_⟩
  · rw [h.frames] at here
    cases here
  · rw [h.frames] at here
    cases here
  · rw [h.log] at inLog
    cases inLog

theorem Unsent.step (h : w.Unsent) (accounted : w.Accounted) (step : WorldStep w m v) :
    v.Unsent := by
  obtain ⟨es, he, exchange⟩ := step.log
  -- a new exchange is for a job of a worker, whose callback was drawn and is held by no code
  have still {k : Nat} (before : w.Silent k)
      (nowhere : ∀ (s : Nat) (x : Worker), w.workers[s]? = some x → k ∉ x.jobTickets) :
      v.Silent k := by
    intro e inLog s task isExchange ticket
    rw [he] at inLog
    rcases List.mem_append.mp inLog with new | old
    · obtain ⟨x, r, rest, hx, -, -, ready⟩ := exchange e new s task isExchange
      apply nowhere s x hx
      simp only [Worker.jobTickets, Worker.tasks, ready, List.map_cons, List.cons_append,
        List.filterMap_cons, ticket, List.mem_append, List.mem_cons, true_or, or_true]
    · exact before e old s task isExchange ticket
  have fresh {k : Nat} (new : w.tickets ≤ k) (s : Nat) (x : Worker)
      (hx : w.workers[s]? = some x) : k ∉ x.jobTickets := by
    intro job
    have := accounted.drawn (mem_outstanding_of_job hx job)
    omega
  constructor
  · intro t j hj
    obtain old | ⟨-, here⟩ := dispatch_source step hj
    · exact h.thread t j old
    · exact here
  · intro t j hj
    obtain old | ⟨new, -⟩ := dispatch_source step hj
    · exact still (h.silent t j old) fun s x hx => accounted.not_job old rfl hx
    · rw [new]
      exact still (h.drawn _ (Nat.le_refl _)) (fresh (Nat.le_refl _))
  · intro k hk
    have := tickets_le step
    exact still (h.drawn k (by omega)) (fresh (by omega))

theorem Unsent.of_reaches (first : w.Untouched) (run : w.Reaches v) : v.Unsent := by
  have all := run.keeps (P := fun w => w.Sound ∧ w.Accounted ∧ w.Unsent)
    ⟨.of_untouched first, .of_untouched first, .of_untouched first⟩
    fun _ _ _ ⟨sound, accounted, unsent⟩ step =>
      ⟨sound.step step, accounted.step sound step, unsent.step accounted step⟩
  exact all.2.2

/-- A job that was sent to a worker: code brings it there or has its result, the worker has it, or
its callback was called. -/
inductive Bound (w : World) (s k : Nat) : Prop
  | inHand (t : Thread) (f : Frame) (h : f ∈ w.frames t) (ticket : f.ticket? = some k)
    (goes : f.goesTo s)
  | held (x : Worker) (j : Job) (ticket : j.callback.ticket = k) (hx : w.workers[s]? = some x)
    (h : x.Holds j)
  | called (h : k ∈ w.fired)

theorem Bound.step (h : w.Bound s k) (step : WorldStep w m v) : v.Bound s k := by
  cases h with
  | inHand t f h ticket goes =>
    obtain stays | ⟨rest, fs, u, rfl, code, ran, rfl, now⟩ := step.frame h
    · exact .inHand t f stays ticket goes
    · cases ran with
      | enqueue r j z hz isOpen =>
        change r = s at goes
        subst goes
        have hz : ({ w with workers := w.workers.modify r fun x =>
            { x with queue := x.queue ++ [j] } } : World).workers[r]? =
              some { z with queue := z.queue ++ [j] } := by simp [hz]
        obtain ⟨y, hy, -, holds⟩ := Pledged.worker_setFrames hz t ([] ++ rest)
        exact .held y j (Option.some.inj ticket) hy (holds j (.inl (by simp)))
      | tooLate r j | conclude j =>
        exact .inHand t (.complete _ _) (by rw [now]; exact List.mem_cons_self ..) ticket trivial
      | complete cb o =>
        have hk : cb.ticket = k := Option.some.inj ticket
        subst hk
        refine .called (Accounted.mem_fired (o := o) (b := t = cb.thread) ?_)
        rw [log_setFrames]
        exact List.mem_cons_self ..
      | own f r x x' c chain fs isHere hx h => cases h <;> cases goes
      | stray f own => cases f <;> first | exact (goes : False).elim | cases own
      | _ => cases goes
  | held x j ticket hx h =>
    obtain ⟨y, hy, worker⟩ := step.workerStep hx
    obtain holds | interrupted | ⟨-, r, concluded⟩ := worker.holds h
    · exact .held y j ticket hy holds
    · exact .inHand (.worker s) (.complete j.callback _)
        (by rw [frames_worker hy]; exact interrupted) (congrArg some ticket) trivial
    · exact .inHand (.worker s) (.conclude j r) (by rw [frames_worker hy]; exact concluded)
        (congrArg some ticket) trivial
  | called h =>
    obtain ⟨es, he, -⟩ := step.log
    refine .called ?_
    rw [fired, he, List.filterMap_append]
    exact List.mem_append_right _ h

/-- Code that holds a callback waits for no other thread. -/
theorem isSome_runFrame {f : Frame} (h : f.ticket? = some k) (t : Thread) :
    (w.runFrame t f).isSome = true := by
  cases f with
  | takeStale cb =>
    simp only [runFrame]
    split <;> rfl
  | dispatch j =>
    simp only [runFrame]
    split <;> rfl
  | start | enqueue | conclude | complete => rfl
  | _ => cases h

theorem step_run {f : Frame} {fs rest : List Frame} (code : w.frames t = f :: rest)
    (ran : w.runFrame t f = some (u, fs)) :
    w.step (.run t) = some (u.setFrames t (fs ++ rest)) := by
  simp [World.step, World.run, code, ran]

/-- Why nobody serves an operation. -/
theorem server_eq_error {c : Connection} {e : Failure}
    (why : c.stopping = true ∧ e = .interrupted ∨
      c.stopping = false ∧ c.state ≠ .initialized ∧ e = .notInitialized) :
    c.server = .error e := by
  obtain ⟨stopping, rfl⟩ | ⟨calm, state, rfl⟩ := why
  · simp [Connection.server, stopping]
  · simp only [Connection.server, calm, Bool.false_eq_true, if_false]
    split <;> simp_all

/-- Where nobody serves, a thread decides in one step that an operation is rejected, and says so in
the next. -/
theorem steps_of_refused {e : Failure} {rest : List Frame} (code : w.frames t = .dispatch j :: rest)
    (here : j.callback.thread = t) (refused : w.connection.server = .error e) :
    ∃ v u, w.step (.run t) = some v ∧ v.step (.run t) = some u ∧ v.log = w.log ∧
      v.Pledged j.callback.ticket (j.outcome (.error e)) ∧
      u.log = .completed j.callback (j.outcome (.error e)) true :: w.log := by
  have ran : w.runFrame t (.dispatch j) =
      some (w, [.complete j.callback (j.outcome (.error e))]) := by simp [runFrame, refused]
  have code' := (frameStep_of_runFrame ran).frames_setFrames code
    ([.complete j.callback (j.outcome (.error e))] ++ rest)
  refine ⟨_, _, step_run code ran, step_run code' rfl, log_setFrames .., ?_, ?_⟩
  · exact .code t j.callback rfl (by rw [code']; exact List.mem_cons_self ..)
  · rw [log_setFrames, World.record, log_setFrames, here]
    simp

/-- A worker that was told to stop exchanges nothing with the node any more. -/
theorem unanswered_of_stopped (hx : w.workers[s]? = some x) (stopped : x.stopped = true)
    (later : w.Reaches v) :
    ∃ es, v.log = es ++ w.log ∧ ∀ e ∈ es, ∀ r task, e.exchange? = some (r, task) → r ≠ s := by
  have all := later.keeps (P := fun v => (∃ x, v.workers[s]? = some x ∧ x.stopped = true) ∧
      ∃ es, v.log = es ++ w.log ∧ ∀ e ∈ es, ∀ r task, e.exchange? = some (r, task) → r ≠ s)
    ⟨⟨x, hx, stopped⟩, [], rfl, by simp⟩
    fun u m v before step => by
      obtain ⟨⟨x, hx, stopped⟩, es, he, silent⟩ := before
      obtain ⟨y, hy, worker⟩ := step.workerStep hx
      obtain ⟨new, hn, exchange⟩ := step.log
      refine ⟨⟨y, hy, worker.stopped stopped⟩, new ++ es, by rw [hn, he, List.append_assoc], ?_⟩
      intro e inLog r task isExchange same
      rcases List.mem_append.mp inLog with inNew | inOld
      · obtain ⟨z, -, -, hz, -, going, -⟩ := exchange e inNew r task isExchange
        subst same
        rw [hx] at hz
        cases hz
        rw [stopped] at going
        cases going
      · exact silent e inOld r task isExchange same
  exact all.2

/-- When a worker that was ready has ended, a job that it was sent has its result, or code is about
to give it. -/
theorem fired_of_ended {w₀ : World} {y : Worker} (first : w₀.Untouched) (run : w₀.Reaches w)
    (hx : w.workers[s]? = some x) (ready : x.WasReady)
    (has : x.Holds j ∨ ∃ t, .enqueue s j ∈ w.frames t) (later : w.Reaches v)
    (hy : v.workers[s]? = some y) (ended : y.phase = .ended)
    (nowhere : ∀ t, j.callback.ticket ∉ ticketsOf (v.frames t)) :
    v.fired.count j.callback.ticket = 1 := by
  have bound : w.Bound s j.callback.ticket := by
    obtain holds | ⟨t, sending⟩ := has
    · exact .held x j rfl hx holds
    · exact .inHand t _ sending rfl rfl
  have bound : v.Bound s j.callback.ticket :=
    later.keeps (P := fun v => v.Bound s j.callback.ticket) bound fun _ _ _ h step => h.step step
  cases bound with
  | inHand t f h ticket => exact absurd (mem_ticketsOf h ticket) (nowhere t)
  | held z i ticket hz holds =>
    rw [hy] at hz
    cases hz
    obtain ⟨⟨queue, runnable, waiting⟩, -⟩ :=
      (Drained.of_reaches first run).ended (.of_reaches first run) hx ready later hy ended
    simp [Worker.Holds, Worker.tasks, queue, runnable, waiting] at holds
  | called h =>
    have most := (Accounted.of_reaches first (run.trans later)).le_one j.callback.ticket
    have least := List.count_pos_iff.mpr h
    omega

/-- A turn that ends a procedure decides what its callback is given. -/
theorem gives_of_conclude {w₀ : World} {r : Except Failure j.operation.Result}
    (first : w₀.Untouched) (run : w₀.Reaches w) (hs : s < u.workers.length)
    (turn : w.step (.turn s .poll) = some (u.setFrames (.worker s) [.conclude j r])) :
    (u.setFrames (.worker s) [.conclude j r]).Gives j.callback.ticket (j.outcome r) := by
  refine Pledged.gives first (run.trans (.single turn)) (.result (.worker s) j r rfl rfl ?_)
  simp [World.frames, List.getElem?_eq_getElem hs]

end Calls

/-- Every operation gets one result. -/
structure Reliable (w : World) : Prop where
  /-- Every callback that was drawn waits in one place, or it was called once. -/
  once : ∀ k < w.tickets, w.outstanding.count k + w.fired.count k = 1
  /-- Code that holds a callback waits for no other thread. -/
  inHand : ∀ t f rest k, w.frames t = f :: rest → f.ticket? = some k →
    (w.step (.run t)).isSome = true
  /-- An operation that nobody may serve is rejected at once on the thread that asked for it; it is
  given nothing else, and the node is asked nothing for it. -/
  refused : ∀ t j rest e, w.frames t = .dispatch j :: rest →
    w.connection.stopping = true ∧ e = .interrupted ∨
      w.connection.stopping = false ∧ w.connection.state ≠ .initialized ∧ e = .notInitialized →
    ∃ v u, w.step (.run t) = some v ∧ v.step (.run t) = some u ∧
      u.log = .completed j.callback (j.outcome (.error e)) true :: w.log ∧
      v.Gives j.callback.ticket (j.outcome (.error e)) ∧
      ∀ v', v.Reaches v' → v'.Silent j.callback.ticket
  /-- A procedure that ends when it is begun, be it by a panic, yields what it ends with. -/
  atOnce : ∀ s x j r rest, w.workers[s]? = some x → x.frames = [] → x.phase ≠ .ended →
    x.stopped = false → x.runnable = (.job j (.done r), .fresh) :: rest →
    ∃ v, w.step (.turn s .poll) = some v ∧ v.Gives j.callback.ticket (j.outcome r)
  /-- One that panics while it waits for a reply yields the text of the panic. -/
  panicked : ∀ s x j p m rest, w.workers[s]? = some x → x.frames = [] → x.phase ≠ .ended →
    x.stopped = false → x.runnable = (.job j p, .answered (.panic m)) :: rest →
    ∃ v, w.step (.turn s .poll) = some v ∧
      v.Gives j.callback.ticket (j.outcome (.error (.internal m)))
  /-- A worker that was told to stop sends no request and takes no reply any more. -/
  silenced : ∀ s x v, w.workers[s]? = some x → x.stopped = true → w.Reaches v →
    ∃ es, v.log = es ++ w.log ∧ ∀ e ∈ es, ∀ r task, e.exchange? = some (r, task) → r ≠ s
  /-- What such a worker has not finished, or is still brought, is interrupted. -/
  interrupted : ∀ s x j, w.workers[s]? = some x → x.stopped = true →
    x.Holds j ∨ (∃ t, .enqueue s j ∈ w.frames t) →
    w.Gives j.callback.ticket (j.outcome (.error .interrupted))
  /-- A worker that was told to stop and has nothing to run takes a turn until it has ended. -/
  proceeds : ∀ s x, w.workers[s]? = some x → x.stopped = true → x.phase ≠ .ended →
    x.frames = [] → ∃ k, (w.step (.turn s k)).isSome = true
  /-- Nothing is queued or running when a worker that has become ready has ended. -/
  ended : ∀ (s : Nat) (x : Worker) (v : World) (y : Worker), w.workers[s]? = some x →
    x.HasPassed → w.Reaches v →
    v.workers[s]? = some y → y.phase = .ended →
    y.queue = [] ∧ y.runnable = [] ∧ y.waiting = [] ∧ y.frames = []
  /-- By then every job that it was sent has its result, or code is about to give it. -/
  completes : ∀ (s : Nat) (x : Worker) (j : Job) (v : World) (y : Worker),
    w.workers[s]? = some x → x.HasPassed →
    x.Holds j ∨ (∃ t, .enqueue s j ∈ w.frames t) → w.Reaches v → v.workers[s]? = some y →
    y.phase = .ended → (∀ t, j.callback.ticket ∉ ticketsOf (v.frames t)) →
    v.fired.count j.callback.ticket = 1
  /-- In a run in which every worker that shuts itself down has settled before, that is every
  operation that was accepted: whoever has it, or is being brought it, has become ready. In other
  runs one may be brought to a worker that is still opening, and nobody takes it there. -/
  accepted : ∀ w₀ : World, w₀.Untouched → ReachesBy Orderly w₀ w →
    ∀ (s : Nat) (x : Worker) (j : Job), w.workers[s]? = some x →
    x.Holds j ∨ (∃ t, .enqueue s j ∈ w.frames t) → x.WasReady ∧
      ∀ (v : World) (y : Worker), w.Reaches v → v.workers[s]? = some y → y.phase = .ended →
        (∀ t, j.callback.ticket ∉ ticketsOf (v.frames t)) → v.fired.count j.callback.ticket = 1

/-- Whatever can be reached, every operation gets one result. -/
theorem reliable_of_reaches {w₀ w : World} (first : w₀.Untouched) (run : w₀.Reaches w) :
    w.Reliable := by
  have sound : w.Sound := .of_reaches first run
  have accounted : w.Accounted := .of_reaches first run
  have unsent : w.Unsent := .of_reaches first run
  have drained : w.Drained := .of_reaches first run
  constructor
  · exact fun k drawn => accounted.once drawn
  · intro t f rest k code ticket
    obtain ⟨⟨u, fs⟩, ran⟩ := Option.isSome_iff_exists.mp (isSome_runFrame (w := w) ticket t)
    rw [step_run code ran]
    rfl
  · intro t j rest e code why
    have inCode : .dispatch j ∈ w.frames t := by rw [code]; exact List.mem_cons_self ..
    obtain ⟨v, u, rejects, calls, sameLog, pledged, called⟩ :=
      steps_of_refused code (unsent.thread t j inCode) (server_eq_error why)
    have reached := run.trans (.single rejects)
    have quiet : v.Silent j.callback.ticket := by
      intro f inLog
      rw [sameLog] at inLog
      exact unsent.silent t j inCode f inLog
    exact ⟨v, u, rejects, calls, called, pledged.gives first reached,
      fun v' later => pledged.silent_of_reaches first reached quiet later⟩
  · intro s x j r rest hx idle stays going ready
    have free : x.isIdle = true := by simp [Worker.isIdle, idle, stays]
    have turn : w.step (.turn s .poll) =
        some ((w.updateWorker s fun x => { x with runnable := rest }).setFrames (.worker s)
          [.conclude j r]) := by
      simp [World.step, World.turn, hx, free, World.poll, ready, going, World.resume,
        World.advance]
    exact ⟨_, turn, gives_of_conclude first run
      (by simpa [World.updateWorker] using (List.getElem?_eq_some_iff.mp hx).1) turn⟩
  · intro s x j p m rest hx idle stays going ready
    have free : x.isIdle = true := by simp [Worker.isIdle, idle, stays]
    have turn : w.step (.turn s .poll) =
        some (((w.updateWorker s fun x => { x with runnable := rest }).record
          (.answered s (.job j p) (.panic m))).setFrames (.worker s)
            [.conclude j (.error (.internal m))]) := by
      simp [World.step, World.turn, hx, free, World.poll, ready, going, World.resume,
        World.continueWith]
    exact ⟨_, turn, gives_of_conclude first run
      (by simpa [World.updateWorker, World.record] using (List.getElem?_eq_some_iff.mp hx).1) turn⟩
  · exact fun s x v hx stopped later => unanswered_of_stopped hx stopped later
  · intro s x j hx stopped has
    refine Pledged.gives first run ?_
    obtain holds | ⟨t, sending⟩ := has
    · exact .held s x j rfl rfl hx stopped holds
    · exact .sending t s x j rfl rfl sending hx stopped
  · exact fun s x hx stopped stays idle => exists_turn sound hx idle stopped stays
  · intro s x v y hx passed later hy ended
    obtain ⟨⟨queue, runnable, waiting⟩, frames⟩ :=
      drained.ended sound hx (.inl passed) later hy ended
    exact ⟨queue, runnable, waiting, frames⟩
  · exact fun s x j v y hx passed has later hy ended nowhere =>
      fired_of_ended first run hx (.inl passed) has later hy ended nowhere
  · intro w₀ first orderly s x j hx has
    have ready := (Prompt.of_reaches first orderly).wasReady hx has
    exact ⟨ready, fun v y later hy ended nowhere =>
      fired_of_ended first orderly.reaches hx ready has later hy ended nowhere⟩

/-! ### A run with an operation -/

/-- The node replies, time and again, to one of the requests that the first worker waits for; after
each reply the world goes on by itself. -/
def replies (i : Nat) (w : World) : List (List UInt8) → Option World
  | [] => some w
  | body :: bodies =>
    (w.step (.reply 0 i (answered body))).bind fun v => (v.settle 40).replies i bodies

theorem reaches_replies {w v : World} {i : Nat} {bodies : List (List UInt8)}
    (h : w.replies i bodies = some v) : w.Reaches v := by
  induction bodies generalizing w with
  | nil =>
    cases h
    exact .refl _
  | cons body bodies ih =>
    obtain ⟨u, step, rest⟩ := Option.bind_eq_some_iff.mp h
    exact ((Reaches.single step).trans (reaches_settle 40 u)).trans (ih rest)

/-- A caller initializes; then it asks for an operation and the node replies. The worker has begun
another refresh meanwhile, whose request waits before that of the operation. -/
def asked (o : Operation) (bodies : List (List UInt8)) : Option World :=
  (((initial 1 .standard).perform 0 (.init "init" []) 30).replies 0
      [infoBody, headerBody, poolBody]).bind fun w =>
    (w.perform 0 (.operate "search" o []) 40).replies 1 bodies

theorem reaches_asked {o : Operation} {bodies : List (List UInt8)} {w : World}
    (h : asked o bodies = some w) : (initial 1 .standard).Reaches w := by
  obtain ⟨v, opened, replied⟩ := Option.bind_eq_some_iff.mp h
  exact ((reaches_perform _ 0 (.init "init" []) 30).trans (reaches_replies opened)).trans
    ((reaches_perform v 0 (.operate "search" o []) 40).trans (reaches_replies replied))

/-- A caller initializes, asks for the height and shuts down before the node has answered. -/
def shutWhileAsking : Option World := (asked .height []).map fun w => w.perform 0 .shutdown 80

/-- The operation that drew a ticket was interrupted. -/
def tellsInterruption (ticket : Nat) : Entry → Bool
  | .completed cb (.operation _ (.error .interrupted)) _ => cb.ticket = ticket
  | _ => false

set_option maxRecDepth 20000 in
/-- The operation that waits for the node is interrupted, and both callbacks are called once. -/
theorem shutWhileAsking_run : ∃ w, (initial 1 .standard).Reaches w ∧ shutWhileAsking = some w ∧
    w.fired = [1, 0] ∧ w.outstanding = [] ∧ w.log.any (tellsInterruption 1) = true := by
  have found : shutWhileAsking.any (fun w => w.fired = [1, 0] && w.outstanding = [] &&
      w.log.any (tellsInterruption 1)) = true := by decide +kernel
  obtain ⟨w, hw, found⟩ := (Option.any_eq_true ..).mp found
  simp only [Bool.and_eq_true, decide_eq_true_eq] at found
  obtain ⟨⟨fired, outstanding⟩, told⟩ := found
  have run : (initial 1 .standard).Reaches w := by
    obtain ⟨v, hv, rfl⟩ := Option.map_eq_some_iff.mp hw
    exact (reaches_asked hv).trans (reaches_perform v 0 .shutdown 80)
  exact ⟨w, run, hw, fired, outstanding, told⟩

/-- The world that this run leads to is reliable. -/
theorem reliable_shutWhileAsking : ∃ w, (initial 1 .standard).Reaches w ∧
    shutWhileAsking = some w ∧ w.fired = [1, 0] ∧ w.outstanding = [] ∧
    w.log.any (tellsInterruption 1) = true ∧ w.Reliable := by
  obtain ⟨w, run, hw, fired, outstanding, told⟩ := shutWhileAsking_run
  exact ⟨w, run, hw, fired, outstanding, told,
    reliable_of_reaches ⟨1, .standard, true, _, [], rfl⟩ run⟩

end World

end RemoteNode.Session
