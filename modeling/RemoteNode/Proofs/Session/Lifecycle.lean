import RemoteNode.Proofs.Session.Progress

/-! How the connection is governed in runs in which no worker shuts down: how its state changes, who
owns it meanwhile, and what every initialization is told. -/

namespace RemoteNode.Session

namespace World

/-- The first refresh of a worker has succeeded. -/
def Refreshed (h : List (World × Move)) (s : Nat) : Prop :=
  ∃ w x rest, (w, .run (.worker s)) ∈ h ∧ w.workers[s]? = some x ∧ x.phase = .opening ∧
    x.frames = .refreshed (.ok ()) :: rest

/-- No client could be built for a worker, or its first refresh has failed. -/
def Missed (h : List (World × Move)) (s : Nat) : Prop :=
  ∃ w x f rest, (w, .run (.worker s)) ∈ h ∧ w.workers[s]? = some x ∧ x.frames = f :: rest ∧
    (f = .connect ∧ w.transport = false ∨ x.phase = .opening ∧ ∃ e, f = .refreshed (.error e))

/-- What a worker is about to report, its first refresh has ended with. -/
def Reported (h : List (World × Move)) (w : World) : Prop :=
  ∀ s, (.markInitialized ∈ w.frames (.worker s) → Refreshed h s) ∧
    (.markFailed ∈ w.frames (.worker s) → Missed h s)

section Reports
variable {w v : World} {m : Move} {h : List (World × Move)} {t : Thread} {s : Nat} {f : Frame}
  {cb : Callback}

/-- A report is pushed when the first refresh has ended, or no client can be built. -/
theorem report_source (step : WorldStep w m v) (report : f = .markInitialized ∨ f = .markFailed)
    (hf : f ∈ v.frames (.worker s)) : f ∈ w.frames (.worker s) ∨
      (f = .markInitialized ∧ Refreshed [(w, m)] s) ∨ (f = .markFailed ∧ Missed [(w, m)] s) := by
  have inner : f.isPushed = true := by rcases report with rfl | rfl <;> rfl
  obtain old | ⟨g, rest, u, fs, rfl, code, ran, pushed⟩ :=
    (step.threadStep (.worker s)).source inner hf
  · exact .inl old
  · right
    obtain ⟨x, hx, code⟩ := worker_of_frames code
    cases ran with
    | own g r z x' c chain fs isHere hz own =>
      cases isHere
      rw [hx] at hz
      cases hz
      cases own with
      | opened opening =>
        refine .inl ⟨by simpa using pushed, w, x, rest, List.mem_cons_self .., hx, opening, code⟩
      | noTransport none =>
        refine .inr ⟨?_, w, x, _, rest, List.mem_cons_self .., hx, code, .inl ⟨rfl, none⟩⟩
        rcases report with rfl | rfl <;> simp at pushed ⊢
      | lost e opening =>
        refine .inr ⟨?_, w, x, _, rest, List.mem_cons_self .., hx, code, .inr ⟨opening, e, rfl⟩⟩
        rcases report with rfl | rfl <;> simp at pushed ⊢
      | _ => rcases report with rfl | rfl <;> simp at pushed
    | _ => rcases report with rfl | rfl <;> simp at pushed

theorem Reported.step (reported : Reported h w) (step : WorldStep w m v) :
    Reported ((w, m) :: h) v := by
  have now {e : World × Move} (inNow : e ∈ [(w, m)]) : e ∈ (w, m) :: h := by
    rw [List.mem_singleton.mp inNow]
    exact List.mem_cons_self ..
  intro s
  constructor
  · intro inCode
    obtain old | ⟨-, u, x, rest, inPast, code⟩ | ⟨other, -⟩ := report_source step (.inl rfl) inCode
    · obtain ⟨u, x, rest, inPast, code⟩ := (reported s).1 old
      exact ⟨u, x, rest, List.mem_cons_of_mem _ inPast, code⟩
    · exact ⟨u, x, rest, now inPast, code⟩
    · cases other
  · intro inCode
    obtain old | ⟨other, -⟩ | ⟨-, u, x, g, rest, inPast, code⟩ :=
      report_source step (.inr rfl) inCode
    · obtain ⟨u, x, g, rest, inPast, code⟩ := (reported s).2 old
      exact ⟨u, x, g, rest, List.mem_cons_of_mem _ inPast, code⟩
    · cases other
    · exact ⟨u, x, g, rest, now inPast, code⟩

/-- An initialization from its call on: it has not started a worker yet, its worker goes on with it,
or it was refused. -/
inductive InitCalled (w : World) (cb : Callback) : Prop
  | calling (t : Thread) (f : Frame) (h : f ∈ w.frames t)
      (begins : f = .takeStale cb ∨ f = .start cb)
  | underWay (h : List (World × Move)) (s : Nat) (fate : Fate h w s cb)
  | refused (r : Except Failure Unit) (pledged : w.Pledged cb.ticket (.init r))

theorem start_step {rest : List Frame} (code : w.frames t = .start cb :: rest)
    (now : w.step (.run t) = some v) :
    (w.connection.stopping = true ∧
        v.frames t = .complete cb (.init (.error .interrupted)) :: rest) ∨
      (w.connection.stopping = false ∧ w.connection.state ≠ .notInitialized ∧
        v.frames t = .complete cb (.init (.error .alreadyInitialized)) :: rest) ∨
      w.connection.stopping = false ∧ w.connection.state = .notInitialized ∧
        v.workers[w.workers.length]? = some (Worker.new cb) ∧
        v.connection =
          ⟨.initializing, false, some w.workers.length, some w.workers.length⟩ := by
  have step := worldStep_of_step now
  obtain ⟨g, rest', fs, u, code', ran, rfl, frames⟩ := step.ran
  rw [code] at code'
  cases code'
  rw [connection_setFrames]
  cases ran with
  | startStopping cb stopping => exact .inl ⟨stopping, frames⟩
  | startAgain cb calm state => exact .inr (.inl ⟨calm, state, frames⟩)
  | start cb calm state =>
    refine .inr (.inr ⟨calm, state, ?_, rfl⟩)
    obtain same | ⟨-, t', cb', rest', here, code', new⟩ := step.length_workers
    · exfalso
      generalize w.connection.worker = holder at same
      cases t <;> cases holder <;> simp at same
    · cases here
      rw [code] at code'
      cases code'
      exact new
  | own f s x x' c chain fs isHere hx own => cases own
  | stray f own => cases own

theorem InitCalled.step (called : w.InitCalled cb) (hs : w.Sound) (owned : w.Owned)
    (now : w.step m = some v) : v.InitCalled cb := by
  have step := worldStep_of_step now
  cases called with
  | calling t f h begins =>
    obtain stays | ⟨rest, fs, u, rfl, code, ran, -, frames⟩ := step.frame h
    · exact .calling t f stays begins
    · obtain rfl | rfl := begins
      · have pushed : .start cb ∈ v.frames t := by
          rw [frames]
          cases ran with
          | takeStale | takeNothing | leaveStale => simp
          | own f s x x' c chain fs isHere hx own => cases own
          | stray f own => cases own
        exact .calling t _ pushed (.inr rfl)
      · obtain ⟨-, frames⟩ | ⟨-, -, frames⟩ | ⟨-, -, new, connection⟩ := start_step code now
        · exact .refused _ (.code t cb rfl (by rw [frames]; exact List.mem_cons_self ..))
        · exact .refused _ (.code t cb rfl (by rw [frames]; exact List.mem_cons_self ..))
        · exact .underWay [] w.workers.length (.started new (by rw [connection]))
  | underWay h s fate => exact .underWay _ s (fate.step hs owned now)
  | refused r pledged => exact .refused r (pledged.step step)

/-- Where nothing happens by itself and no first refresh waits for the node, an initialization that
was called has called its callback. -/
theorem InitCalled.fired (called : w.InitCalled cb) (hs : w.Sound) (atRest : w.AtRest)
    (idle : ∀ t, w.frames t = [])
    (noWait : ∀ (s : Nat) (x : Worker), w.workers[s]? = some x → x.phase = .opening →
      x.waiting = []) : cb.ticket ∈ w.fired := by
  have ofPledge {r : Except Failure Unit} (pledged : w.Pledged cb.ticket (.init r)) :
      cb.ticket ∈ w.fired := by
    cases pledged with
    | code t cb' ticket h =>
      rw [idle] at h
      cases h
    | result t j r ticket same h =>
      rw [idle] at h
      cases h
    | sending t s x j ticket same h =>
      rw [idle] at h
      cases h
    | held s x j ticket same => cases same
    | called cb' b ticket h => exact ticket ▸ Accounted.mem_fired h
  cases called with
  | calling t f h =>
    rw [idle] at h
    cases h
  | refused r pledged => exact ofPledge pledged
  | underWay h s fate =>
    cases fate with
    | told x hx paid r told pledged => exact ofPledge pledged
    | waits x hx callback owes =>
      exfalso
      have code : x.frames = [] := by rw [← frames_worker hx, idle]
      obtain ⟨opening, -⟩ := stands_of_owes (hs.courses s x hx) owes
      have course := (hs.courses s x hx).course
      have waiting := noWait s x hx opening
      have runnable : x.runnable = [] := by
        cases hr : x.runnable with
        | nil => rfl
        | cons a rest =>
          have free : x.isIdle = true := by simp [Worker.isIdle, code, opening]
          have stuck := atRest.workers s x .poll hx (by simp)
          simp [World.step, World.turn, hx, free, World.poll, hr] at stuck
      have none : x.refreshes = 0 := by simp [Worker.refreshes, Worker.tasks, runnable, waiting]
      rw [opening, code, none] at course
      generalize x.refreshing = q at course
      cases course with
      | refresh p fs stays code => cases code
      | asleep p h | spent p h => rcases h with h | h <;> cases h

end Reports

/-- How a step changes the state of the connection. -/
inductive Changed (h : List (World × Move)) (w : World) : Move → State → State → Prop
  | start (t : Thread) (cb : Callback) (rest : List Frame) (code : w.frames t = .start cb :: rest)
    (calm : w.connection.stopping = false) :
    Changed h w (.run t) .notInitialized .initializing
  | ready (s : Nat) (held : w.connection.worker = some s) (calm : w.connection.stopping = false)
    (refreshed : Refreshed h s) (unshut : ¬Began h s) :
    Changed h w (.run (.worker s)) .initializing .initialized
  | missed (s : Nat) (held : w.connection.worker = some s) (calm : w.connection.stopping = false)
    (missed : Missed h s) : Changed h w (.run (.worker s)) .initializing .notInitialized
  | shut (t : Thread) (rest : List Frame) (code : w.frames t = .finishShutdown :: rest)
    (stopping : w.connection.stopping = true) (before : State) :
    Changed h w (.run t) before .notInitialized

/-- The outcome is what a callback is about to be told, or was told. -/
def Hears (w : World) (k : Nat) (o : Outcome) : Prop :=
  ∃ cb : Callback, cb.ticket = k ∧
    ((∃ t rest, w.frames t = .complete cb o :: rest) ∨ ∃ b, .completed cb o b ∈ w.log)

/-- Nothing happens by itself, and no worker is about to begin a shutdown on its own thread. -/
structure Settled (w : World) : Prop where
  atRest : w.AtRest
  off : ∀ s src a rest, w.frames (.worker s) ≠ .beginShutdown src a :: rest

/-- How the connection is governed in a world with its history. -/
structure Governed (h : List (World × Move)) (w : World) : Prop where
  /-- The state of the connection changes in four ways. -/
  changes : ∀ m v, w.step m = some v → v.connection.state ≠ w.connection.state →
    Changed h w m w.connection.state v.connection.state
  /-- An initialization that starts during a shutdown is interrupted. -/
  interrupted : ∀ t cb rest v, w.frames t = .start cb :: rest → w.step (.run t) = some v →
    w.connection.stopping = true → v.frames t = .complete cb (.init (.error .interrupted)) :: rest ∧
      v.Gives cb.ticket (.init (.error .interrupted))
  /-- One that starts in another state than before any initialization is refused. -/
  again : ∀ t cb rest v, w.frames t = .start cb :: rest → w.step (.run t) = some v →
    w.connection.stopping = false → w.connection.state ≠ .notInitialized →
    v.frames t = .complete cb (.init (.error .alreadyInitialized)) :: rest ∧
      v.Gives cb.ticket (.init (.error .alreadyInitialized))
  /-- Any other starts a worker of its own. It is told that it succeeded exactly if that worker has
  made the connection initialized, and otherwise what the worker failed with. -/
  starts : ∀ t cb rest v, w.frames t = .start cb :: rest → w.step (.run t) = some v →
    w.connection.stopping = false → w.connection.state = .notInitialized →
    v.workers[w.workers.length]? = some (Worker.new cb) ∧
      v.connection = ⟨.initializing, false, some w.workers.length, some w.workers.length⟩ ∧
      ∀ h' u, Trace OffThread v h' u → ∀ o, u.Hears cb.ticket o →
        ∃ r, o = .init r ∧ Told h' u w.workers.length r
  /-- A worker whose shutdown has begun does not make the connection initialized any more. -/
  overtaken : ∀ s, Began h s → ∀ h' u, Trace OffThread w h' u → ¬Made h' s
  /-- Outside of a shutdown, a connection that is not where it was before any initialization is
  owned by the worker that was started last. It was not told to stop and follows the state. -/
  owned : w.connection.stopping = false → w.connection.state ≠ .notInitialized →
    ∃ s x, w.connection.worker = some s ∧ w.connection.running = some s ∧
      s + 1 = w.workers.length ∧ w.workers[s]? = some x ∧ x.stopped = false ∧
      x.phase ≠ .ended ∧ x.stands = w.connection.state
  /-- A callback is called at most once, and waits in one place before. -/
  once : ∀ k < w.tickets, w.outstanding.count k + w.fired.count k = 1
  /-- Threads do not wait for one another for ever. -/
  rests : w.Settled → ∀ t, w.frames t = []
  /-- An initialization that was called is told its outcome once by the time nothing happens by
  itself any more, unless its first refresh still waits for the node. -/
  fires : ∀ t f cb, f ∈ w.frames t → f = .takeStale cb ∨ f = .start cb →
    ∀ u, ReachesBy OffThread w u → u.Settled →
      (∀ (s : Nat) (x : Worker), u.workers[s]? = some x → x.phase = .opening → x.waiting = []) →
      u.fired.count cb.ticket = 1

section Runs
variable {w₀ w v : World} {m : Move} {h : List (World × Move)} {s k : Nat} {cb : Callback}
  {o : Outcome}

/-- Where a run without shutdowns on the threads of workers leads. -/
structure OffCourse (h : List (World × Move)) (w : World) : Prop where
  sound : w.Sound
  owned : w.Owned
  untangled : w.Untangled
  accounted : w.Accounted
  reported : Reported h w

theorem OffCourse.of_trace (first : w₀.Untouched) (run : Trace OffThread w₀ h w) :
    OffCourse h w := by
  induction run with
  | nil =>
    refine ⟨.of_untouched first, .of_untouched first, .of_untouched first, .of_untouched first, ?_⟩
    intro s
    rw [first.frames]
    exact ⟨nofun, nofun⟩
  | step m past may now ih =>
    obtain ⟨sound, owned, untangled, accounted, reported⟩ := ih
    have step := worldStep_of_step now
    exact ⟨sound.step step, owned.step sound may.orderly step, untangled.step sound owned may step,
      accounted.step sound step, reported.step step⟩

theorem Trace.append {allowed : World → Move → Prop} {h' : List (World × Move)} {u : World}
    (run : Trace allowed w h v) (more : Trace allowed v h' u) : Trace allowed w (h' ++ h) u := by
  induction more with
  | nil => exact run
  | step m past may now ih => exact .step m ih may now

theorem Began.unheld (first : w₀.Untouched) (run : Trace OffThread w₀ h w) (began : Began h s) :
    s < w.workers.length ∧ w.connection.worker ≠ some s := by
  induction run with
  | nil =>
    obtain ⟨a, m, b, inPast, -⟩ := began
    cases inPast
  | @step h v u m past may now ih =>
    have step := worldStep_of_step now
    obtain ⟨a, k, b, inPast, begins, held, calm, stopping⟩ := began
    rcases List.mem_cons.mp inPast with same | earlier
    · cases same
      rw [now] at begins
      cases begins
      have there := (List.getElem?_eq_some_iff.mp
        ((OffCourse.of_trace first past).owned.held s held).2.2.choose_spec.1).1
      refine ⟨by obtain same | ⟨more, -⟩ := step.length_workers <;> omega, ?_⟩
      obtain same | ⟨t, f, rest, -, -, change⟩ := step.connectionStep
      · rw [same, calm] at stopping
        cases stopping
      · generalize u.connection = c at change stopping ⊢
        cases change with
        | begin => simp
        | take | start | finish => cases stopping
        | keep | mark | fail => rw [calm] at stopping; cases stopping
    · obtain ⟨there, unheld⟩ := ih ⟨a, k, b, earlier, begins, held, calm, stopping⟩
      exact unheld_step step there unheld

theorem not_made_of_unheld {h' : List (World × Move)} {u : World} (first : w₀.Untouched)
    (run : Trace OffThread w₀ h w) (there : s < w.workers.length)
    (unheld : w.connection.worker ≠ some s) (more : Trace OffThread w h' u) :
    (s < u.workers.length ∧ u.connection.worker ≠ some s) ∧ ¬Made h' s := by
  induction more with
  | nil =>
    refine ⟨⟨there, unheld⟩, ?_⟩
    rintro ⟨a, b, inPast, -⟩
    cases inPast
  | @step h' a b m past may now ih =>
    obtain ⟨⟨there, unheld⟩, unmade⟩ := ih
    have step := worldStep_of_step now
    refine ⟨unheld_step step there unheld, fun made => ?_⟩
    obtain before | ⟨rfl, before, after⟩ := made_step now made
    · exact unmade before
    · have course := OffCourse.of_trace first (run.append past)
      obtain ⟨rest, code⟩ := code_of_made step before after
      refine unheld (held_of_mark course.sound course.owned step code (.inl rfl) fun same => ?_)
      rw [same, before] at after
      cases after

theorem changed_of_step (first : w₀.Untouched) (run : Trace OffThread w₀ h w)
    (now : w.step m = some v) (ne : v.connection.state ≠ w.connection.state) :
    Changed h w m w.connection.state v.connection.state := by
  have course := OffCourse.of_trace first run
  have step := worldStep_of_step now
  obtain same | ⟨t, f, rest, rfl, code, change⟩ := step.connectionStep
  · rw [same] at ne
    exact absurd rfl ne
  · have heard : v.connection ≠ w.connection := fun same => ne (by rw [same])
    generalize hc : v.connection = c at change ne heard ⊢
    cases change with
    | keep | begin => exact absurd rfl ne
    | take cb state => exact absurd state.symm ne
    | start cb calm state =>
      rw [state]
      exact .start t cb rest code calm
    | mark s here calm state =>
      subst here
      have held := held_of_mark course.sound course.owned step code (.inl rfl) (hc ▸ heard)
      rw [state]
      refine .ready s held calm ((course.reported s).1 ?_) fun began =>
        (Began.unheld first run began).2 held
      rw [code]
      exact List.mem_cons_self ..
    | fail calm state =>
      obtain ⟨s, x, rfl, -⟩ :=
        course.sound.worker_of_mem rfl (by rw [code]; exact List.mem_cons_self ..)
      have held := held_of_mark course.sound course.owned step code (.inr rfl) (hc ▸ heard)
      rw [state]
      refine .missed s held calm ((course.reported s).2 ?_)
      rw [code]
      exact List.mem_cons_self ..
    | finish =>
      refine .shut t rest code ?_ _
      by_contra calm
      exact course.owned.calm (by simpa using calm) t (by rw [code]; exact List.mem_cons_self ..)

/-- What a callback hears is what is decided for it. -/
theorem Pledged.hears (first : w₀.Untouched) (run : w₀.Reaches w) {o' : Outcome}
    (pledged : w.Pledged k o) (hears : w.Hears k o') : o' = o := by
  have gives := pledged.gives first run
  obtain ⟨cb, ticket, ⟨t, rest, code⟩ | ⟨b, told⟩⟩ := hears
  · have now := step_run (w := w) code rfl
    refine gives _ (.single now) cb o' (t = cb.thread) ?_ ticket
    rw [log_setFrames]
    exact List.mem_cons_self ..
  · exact gives w (.refl w) cb o' b told ticket

/-- What the callback of an initialization hears fits its fate. -/
theorem Fate.hears {h' : List (World × Move)} (first : w₀.Untouched) (run : w₀.Reaches w)
    (fate : Fate h' w s cb) (hears : w.Hears cb.ticket o) : ∃ r, o = .init r ∧ Told h' w s r := by
  cases fate with
  | told x hx paid r told pledged => exact ⟨r, pledged.hears first run hears, told⟩
  | waits x hx callback owes =>
    exfalso
    have accounted := Accounted.of_reaches first run
    obtain ⟨cb', ticket, ⟨t, rest, code⟩ | ⟨b, told⟩⟩ := hears
    · refine (accounted.not_kept (f := .complete cb' o) (t := t) ?_ rfl hx).2 owes ?_
      · rw [code]
        exact List.mem_cons_self ..
      · rw [callback, ticket]
    · refine accounted.not_fired (mem_outstanding_of_owes hx owes) ?_
      rw [callback, ← ticket]
      exact Accounted.mem_fired told

/-- In a run in which no worker begins a shutdown on its own thread, the connection is governed at
any time. -/
theorem governed_of_trace (first : w₀.Untouched) (run : Trace OffThread w₀ h w) :
    Governed h w := by
  have course := OffCourse.of_trace first run
  have reach : w₀.Reaches w := run.reachesBy.reaches
  constructor
  · exact fun m v now ne => changed_of_step first run now ne
  · intro t cb rest v code now stopping
    obtain ⟨-, frames⟩ | ⟨calm, -⟩ | ⟨calm, -⟩ := start_step code now
    · refine ⟨frames, Pledged.gives first (reach.trans (.single now)) ?_⟩
      exact .code t cb rfl (by rw [frames]; exact List.mem_cons_self ..)
    · rw [stopping] at calm
      cases calm
    · rw [stopping] at calm
      cases calm
  · intro t cb rest v code now calm state
    obtain ⟨stopping, -⟩ | ⟨-, -, frames⟩ | ⟨-, state', -⟩ := start_step code now
    · rw [stopping] at calm
      cases calm
    · refine ⟨frames, Pledged.gives first (reach.trans (.single now)) ?_⟩
      exact .code t cb rfl (by rw [frames]; exact List.mem_cons_self ..)
    · exact absurd state' state
  · intro t cb rest v code now calm state
    obtain ⟨stopping, -⟩ | ⟨-, state', -⟩ | ⟨-, -, new, connection⟩ := start_step code now
    · rw [stopping] at calm
      cases calm
    · exact absurd state state'
    · refine ⟨new, connection, fun h' u later o hears => ?_⟩
      have may : w.OffThread (.run t) := by
        intro s src a rest' here code'
        cases here
        rw [code] at code'
        cases code'
      have onwards := run.step (.run t) may now
      have fate : Fate h' u w.workers.length cb := by
        clear hears
        induction later with
        | nil => exact .started new (by rw [connection])
        | step m past may now ih =>
          have course := OffCourse.of_trace first (onwards.append past)
          exact ih.step course.sound course.owned now
      exact fate.hears first (onwards.append later).reachesBy.reaches hears
  · intro s began h' u more
    obtain ⟨there, unheld⟩ := began.unheld first run
    exact (not_made_of_unheld first run there unheld more).2
  · intro calm state
    cases held : w.connection.worker with
    | none => exact absurd (by rw [course.owned.vacant held calm]; rfl) state
    | some s =>
      obtain ⟨running, -, x, hx, going, stands⟩ := course.owned.held s held
      refine ⟨s, x, rfl, running, (course.owned.running s running).1, hx, going, ?_, stands⟩
      intro ended
      rw [← stands, Worker.stands, ended] at state
      exact state rfl
  · exact fun k drawn => course.accounted.once drawn
  · exact fun settled t =>
      settled.atRest.frames_nil course.sound course.owned course.untangled settled.off t
  · intro t f cb inCode begins u later settled noWait
    obtain ⟨h', onwards⟩ := Trace.of_reachesBy later
    have called : u.InitCalled cb := by
      clear later settled noWait
      induction onwards with
      | nil => exact .calling t f inCode begins
      | step m past may now ih =>
        have course := OffCourse.of_trace first (run.append past)
        exact ih.step course.sound course.owned now
    have course := OffCourse.of_trace first (run.append onwards)
    have code := settled.atRest.frames_nil course.sound course.owned course.untangled settled.off
    have fired := called.fired course.sound settled.atRest code noWait
    have most := course.accounted.le_one cb.ticket
    have least := List.count_pos_iff.mpr fired
    omega

end Runs

/-- A caller initializes where no transport is available; the callback initializes again on the
thread of the worker that failed, and when that has failed as well the caller shuts down. -/
def retryAndShut : List Move :=
  .call 0 (.init "first" [.init "second" []]) :: List.replicate 5 (.run (.caller 0)) ++
    List.replicate 11 (.run (.worker 0)) ++ List.replicate 5 (.run (.worker 1)) ++
      .call 0 .shutdown :: List.replicate 9 (.run (.caller 0))

/-- Both initializations are told that they failed, and nothing is left of either worker. -/
theorem governed_retryAndShut : ∃ h w, Trace OffThread cutOff h w ∧
    cutOff.checkedSteps isOffThread retryAndShut = some w ∧ w.fired = [1, 0] ∧
    w.workers.length = 2 ∧ w.connection = .initial ∧ Governed h w := by
  have found : (cutOff.checkedSteps isOffThread retryAndShut).any (fun w =>
      w.fired = [1, 0] && w.workers.length = 2 && w.connection = .initial) = true := by
    decide +kernel
  obtain ⟨w, hw, found⟩ := (Option.any_eq_true ..).mp found
  simp only [Bool.and_eq_true, decide_eq_true_eq] at found
  obtain ⟨⟨fired, both⟩, connection⟩ := found
  obtain ⟨h, run⟩ := Trace.of_reachesBy
    (ReachesBy.of_checkedSteps (fun _ _ h => offThread_of_isOffThread h) hw)
  exact ⟨h, w, run, hw, fired, both, connection,
    governed_of_trace ⟨1, .standard, false, _, [], rfl⟩ run⟩

end World

end RemoteNode.Session
