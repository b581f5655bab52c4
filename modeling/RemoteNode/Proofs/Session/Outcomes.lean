import RemoteNode.Proofs.Session.Histories

/-! What an initialization is told. Its worker waits until the first refresh has ended; then it is
told that it succeeded exactly when its worker has made the connection initialized, and otherwise
why it failed. -/

namespace RemoteNode.Session

section Paying
variable {w v : World} {m : Move} {s : Nat} {x y : Worker} {f : Frame} {rest fs : List Frame}

/-- A worker that owes its callback an outcome is in the midst of its first refresh. -/
theorem stands_of_owes (h : x.OnCourse) (owes : x.owes = true) :
    x.phase = .opening ∧ x.stands = .initializing := by
  rw [owes_eq, Bool.and_eq_true, decide_eq_true_eq] at owes
  obtain ⟨opening, none⟩ := owes
  refine ⟨opening, ?_⟩
  have course := h.course
  rw [opening] at course
  rw [Worker.stands, opening]
  generalize x.refreshing = q, x.refreshes = n, ownCode x.frames = o at course none ⊢
  cases course with
  | refresh p fs stays code => exact standsFor_refresh code
  | connect | asked | mark => rfl
  | _ => first | rfl | cases none

/-- A worker that is about to report that it is ready owes its callback an outcome. -/
theorem owes_of_mark (h : x.OnCourse) (hf : x.frames = .markInitialized :: rest) :
    x.owes = true := by
  have course := h.course
  rw [owes_eq]
  rw [hf, ownCode_own rfl] at course ⊢
  generalize x.phase = p, x.refreshing = q, x.refreshes = n, ownCode rest = o at course ⊢
  cases course with
  | refresh p fs stays code => cases code
  | mark => rfl

theorem WorkerStep.paid (h : x.OnCourse) (step : WorkerStep w m s x y) (paid : x.owes = false) :
    y.owes = false := by
  have same {y : Worker} (phase : y.phase = x.phase)
      (code : y.frames.any Frame.decides = x.frames.any Frame.decides) : y.owes = false := by
    rw [Worker.owes, phase, code]
    exact paid
  cases step with
  | others y away touched => exact same touched.phase (by rw [touched.frames])
  | foreign f rest fs u y here hf step notOwn touched =>
    refine same touched.phase ?_
    rw [hf, List.any_append, step.decides notOwn, List.any_cons, f.decides_of_foreign notOwn]
  | own f rest fs x' c chain here hf step =>
    obtain ⟨kept, -⟩ | ⟨owed, -⟩ := owes_own h hf step
    · rw [kept, paid]
    · rw [paid] at owed
      cases owed
  | markFailed rest here hf =>
    refine same rfl ?_
    rw [hf]
    rfl
  | leave => rfl
  | reply => exact same rfl rfl
  | turn k y es here idle stays step =>
    obtain phase | ⟨live, closed, -⟩ := step.same.2.2.2
    · simp only [Worker.owes, idle, List.any_nil, Bool.not_false, Bool.and_true,
        decide_eq_false_iff_not] at paid
      simp [Worker.owes, phase, paid]
    · simp [Worker.owes, closed]

theorem WorldStep.settings (step : WorldStep w m v) :
    v.transport = w.transport ∧ v.timeout = w.timeout := by
  cases m with
  | run t =>
    obtain ⟨f, rest, fs, u, -, ran, rfl, -⟩ := step.ran
    have same : (u.setFrames t (fs ++ rest)).transport = u.transport ∧
        (u.setFrames t (fs ++ rest)).timeout = u.timeout := by cases t <;> exact ⟨rfl, rfl⟩
    rw [same.1, same.2]
    cases ran with
    | register | unregister | unregisterAwait | notifyNobody | notify | delivered =>
      simp [World.record, World.setRegistry_eq, World.setDelivery_eq]
    | _ => exact ⟨rfl, rfl⟩
  | call | release | reply | turn => cases step; exact ⟨rfl, rfl⟩

/-- What is ready was ready before, unless a reply has come. -/
theorem TurnStep.readyBefore {limit : Exchange.Timeout} {k : Turn} {es : List Entry}
    (step : TurnStep limit s x k y es) (task : Task) (r : Reply)
    (ready : (task, .answered r) ∈ y.runnable) : (task, .answered r) ∈ x.runnable := by
  cases step with
  | pollStopped task' r' rest stopped hr =>
    obtain ⟨q, fs, same⟩ := ({ x with runnable := rest } : Worker).cancelled_eq task'
    rw [same] at ready
    rw [hr]
    exact List.mem_cons_of_mem _ ready
  | interrupt i task' =>
    obtain ⟨q, fs, same⟩ := ({ x with waiting := x.waiting.eraseIdx i } : Worker).cancelled_eq task'
    rw [same] at ready
    exact ready
  | send task' rest going hr =>
    rw [hr]
    exact List.mem_cons_of_mem _ ready
  | beginJob j p rest going hr =>
    rw [hr]
    obtain ⟨q, same⟩ | same := ({ x with runnable := rest } : Worker).advanced_cases j p
    · rw [same] at ready
      exact List.mem_cons_of_mem _ ready
    · rw [same] at ready
      exact List.mem_cons_of_mem _ (by simpa using ready)
  | beginRefresh g rest going hr =>
    rw [hr]
    exact List.mem_cons_of_mem _ (by simpa using ready)
  | answered task' r' rest going hr =>
    rw [hr]
    cases task' with
    | refresh g => cases r' <;> exact List.mem_cons_of_mem _ ready
    | job j p =>
      obtain ⟨q, same⟩ | ⟨q, same⟩ :=
        ({ x with runnable := rest } : Worker).answered_job_cases limit j p r'
      · rw [same] at ready
        exact List.mem_cons_of_mem _ ready
      · rw [same] at ready
        exact List.mem_cons_of_mem _ (by simpa using ready)
  | wake | take => simpa using ready
  | _ => exact ready

/-- No reply that makes a refresh panic is ready. -/
theorem WorkerStep.readyFits (step : WorkerStep w m s x y)
    (fits : ∀ g m, (.refresh g, .answered (.panic m)) ∉ x.runnable) (g : Stage) (message : String) :
    (.refresh g, .answered (.panic message)) ∉ y.runnable := by
  intro ready
  cases step with
  | others y away touched => exact fits g message (touched.runnable ▸ ready)
  | foreign f rest fs u y here hf ran notOwn touched =>
    exact fits g message (touched.runnable ▸ ready)
  | own f rest fs x' c chain here hf own =>
    refine fits g message ?_
    cases own with
    | connect | askHeader | askPool => simpa using ready
    | _ => exact ready
  | markFailed | leave => exact fits g message ready
  | reply i r task here waits ok =>
    rcases List.mem_append.mp ready with ready | new
    · exact fits g message ready
    · simp only [List.mem_singleton, Prod.mk.injEq, Ready.answered.injEq] at new
      obtain ⟨rfl, rfl⟩ := new
      cases ok
  | turn k y es here idle stays turn => exact fits g message (turn.readyBefore _ _ ready)

end Paying

namespace World

/-- Why an initialization fails: no client can be built, a reply to its first refresh was an error,
or a shutdown of its worker has begun. -/
inductive Cause (h : List (World × Move)) (w : World) (s : Nat) : Failure → Prop
  | client (none : w.transport = false) :
    Cause h w s (.connectionFailed "no transport is available")
  | refresh (g : Stage) (a : Exchange.Arrival Exchange.Response) (e : Exchange.Error)
    (replied : .answered s (.refresh g) (.arrival a) ∈ w.log)
    (failed : answer g.command w.timeout a = .error e) : Cause h w s (.ofExchange e)
  | shutdown (began : Began h s) : Cause h w s .interrupted

/-- What the initialization of a worker may be told. -/
structure Told (h : List (World × Move)) (w : World) (s : Nat) (r : Except Failure Unit) :
    Prop where
  success : r = .ok () ↔ Made h s
  failure : ∀ e, r = .error e → Cause h w s e

/-- How it stands with the initialization of a worker: the worker owes its callback an outcome, or
the outcome is decided. -/
inductive Fate (h : List (World × Move)) (w : World) (s : Nat) (cb : Callback) : Prop
  | waits (x : Worker) (hx : w.workers[s]? = some x) (callback : x.callback = cb)
    (owes : x.owes = true) (lost : ∀ e, .refreshed (.error e) ∈ x.frames → Cause h w s e)
    (fits : ∀ g m, (.refresh g, .answered (.panic m)) ∉ x.runnable)
    (held : w.connection.worker = some s ∨ Began h s) (notYet : ¬Made h s)
  | told (x : Worker) (hx : w.workers[s]? = some x) (paid : x.owes = false)
    (r : Except Failure Unit) (told : Told h w s r) (pledged : w.Pledged cb.ticket (.init r))

section Fates
variable {w v : World} {m : Move} {t : Thread} {s : Nat} {x y : Worker} {cb : Callback}
  {h : List (World × Move)} {f : Frame} {rest fs : List Frame} {e : Failure}

theorem Cause.later (cause : Cause h w s e) (step : WorldStep w m v) :
    Cause ((w, m) :: h) v s e := by
  obtain ⟨transport, timeout⟩ := step.settings
  obtain ⟨es, log, -⟩ := step.log
  cases cause with
  | client none => exact .client (transport.trans none)
  | refresh g a e replied failed =>
    refine .refresh g a e ?_ (by rw [timeout, failed])
    rw [log]
    exact List.mem_append_right _ replied
  | shutdown began => exact .shutdown (began.later _)

/-- What the first refresh ends with on its own course is no failure. -/
theorem not_lost_own {x' : Worker} {c : Connection} {chain : ChainView}
    (step : OwnStep w x f x' c chain fs) (e : Failure) : .refreshed (.error e) ∉ fs := by
  cases step <;> simp

/-- A turn in the first refresh fails it only by stopping it or with an error of the node. -/
theorem lost_of_turn {k : Turn} {es : List Entry} (step : TurnStep w.timeout s x k y es)
    (idle : x.frames = []) (opening : x.phase = .opening)
    (fits : ∀ g m, (.refresh g, .answered (.panic m)) ∉ x.runnable)
    (lost : .refreshed (.error e) ∈ y.frames) :
    x.stopped = true ∧ e = .interrupted ∨ ∃ g a err, es = [.answered s (.refresh g) (.arrival a)] ∧
      answer g.command w.timeout a = .error err ∧ e = .ofExchange err := by
  have cancelled {z : Worker} {task : Task} (opening : z.phase = .opening)
      (lost : .refreshed (.error e) ∈ (z.cancelled task).frames) : e = .interrupted := by
    cases task with
    | job j p => simp [Worker.cancelled] at lost
    | refresh g => simpa [Worker.cancelled, opening] using lost
  cases step with
  | pollStopped task r rest stopped ready =>
    exact .inl ⟨stopped, cancelled (z := { x with runnable := rest }) opening lost⟩
  | interrupt i task stopped waits =>
    exact .inl ⟨stopped,
      cancelled (z := { x with waiting := x.waiting.eraseIdx i }) opening lost⟩
  | beginJob j p rest =>
    obtain ⟨r, same⟩ | same := ({ x with runnable := rest } : Worker).advanced_cases j p <;>
      rw [same] at lost <;> simp [idle] at lost
  | answered task r rest going ready =>
    cases task with
    | job j p =>
      obtain ⟨q, same⟩ | ⟨q, same⟩ :=
        ({ x with runnable := rest } : Worker).answered_job_cases w.timeout j p r <;>
          rw [same] at lost <;> simp [idle] at lost
    | refresh g =>
      cases r with
      | panic m => exact absurd (by rw [ready]; exact List.mem_cons_self ..) (fits g m)
      | arrival a =>
        refine .inr ⟨g, a, ?_⟩
        change .refreshed (.error e) ∈ refreshAnswered g w.timeout a at lost
        cases g with
        | info | header | pool =>
          simp only [refreshAnswered] at lost
          split at lost
          · simp at lost
          · rename_i err failed
            refine ⟨err, rfl, failed, ?_⟩
            simpa using lost
  | _ => simp [idle] at lost

theorem Fate.started (hx : w.workers[s]? = some (Worker.new cb))
    (held : w.connection.worker = some s) : Fate [] w s cb := by
  refine .waits _ hx rfl rfl (fun e lost => ?_) (fun g m ready => ?_) (.inl held) ?_
  · simp [Worker.new] at lost
  · simp [Worker.new] at ready
  · rintro ⟨w, v, inPast, -⟩
    cases inPast

theorem Fate.step_told (hs : w.Sound) (now : w.step m = some v) (hx : w.workers[s]? = some x)
    (paid : x.owes = false) {r : Except Failure Unit} (told : Told h w s r)
    (pledged : w.Pledged cb.ticket (.init r)) : Fate ((w, m) :: h) v s cb := by
  have step := worldStep_of_step now
  obtain ⟨y, hy, worker⟩ := step.workerStep hx
  refine .told y hy (worker.paid (hs.courses s x hx) paid) r ⟨?_, ?_⟩ (pledged.step step)
  · refine told.success.trans ⟨fun made => made.later _, fun made => ?_⟩
    obtain before | ⟨rfl, before, after⟩ := made_step now made
    · exact before
    · obtain ⟨rest, code⟩ := code_of_made step before after
      rw [frames_worker hx] at code
      rw [owes_of_mark (hs.courses s x hx) code] at paid
      cases paid
  · exact fun e he => (told.failure e he).later step

/-- The connection takes a report that a worker is ready over, unless a shutdown got there first. -/
theorem connection_of_markInitialized (step : WorldStep w (.run (.worker s)) v)
    (hx : w.workers[s]? = some x) (hf : x.frames = .markInitialized :: rest) :
    v.connection = { w.connection with state := .initialized } ∧ w.connection.stopping = false ∧
        w.connection.state = .initializing ∨
      v.connection = w.connection ∧
        ¬(w.connection.stopping = false ∧ w.connection.state = .initializing) := by
  obtain ⟨g, gs, fs, u, code, ran, rfl, -⟩ := step.ran
  rw [frames_worker hx, hf] at code
  cases code
  rw [connection_setFrames]
  cases ran with
  | own f r z x' c chain fs isHere hz own =>
    cases own with
    | markInitialized calm state => exact .inl ⟨rfl, calm, state⟩
    | markRefused busy => exact .inr ⟨rfl, busy⟩
  | stray f own none => exact absurd hx (none s x rfl)

/-- On its own course a worker goes on with its first refresh, or decides the outcome. -/
theorem Fate.step_own (hs : w.Sound) (owned : w.Owned)
    (now : w.step (.run (.worker s)) = some v) (hx : w.workers[s]? = some x)
    (callback : x.callback = cb) (owes : x.owes = true)
    (lost : ∀ e, .refreshed (.error e) ∈ x.frames → Cause h w s e)
    (fits : ∀ g m, (.refresh g, .answered (.panic m)) ∉ x.runnable)
    (held : w.connection.worker = some s ∨ Began h s) (notYet : ¬Made h s)
    (hf : x.frames = f :: rest) {x' : Worker} {c : Connection} {chain : ChainView}
    (own : OwnStep w x f x' c chain fs)
    (hy : v.workers[s]? = some { x' with frames := fs ++ rest }) :
    Fate ((w, .run (.worker s)) :: h) v s cb := by
  have step := worldStep_of_step now
  have course := hs.courses s x hx
  obtain ⟨opening, stands⟩ := stands_of_owes course owes
  have code : v.frames (.worker s) = fs ++ rest := frames_worker hy
  have goesOn := held_or_began owned now hx stands held
  have unmade (ne : f ≠ .markInitialized) : ¬Made ((w, .run (.worker s)) :: h) s := by
    intro made
    obtain before | ⟨-, before, after⟩ := made_step now made
    · exact notYet before
    · obtain ⟨rest', code'⟩ := code_of_made step before after
      rw [frames_worker hx, hf] at code'
      exact ne (List.cons.inj code').1
  have onwards (ne : f ≠ .markInitialized)
      (owes' : ({ x' with frames := fs ++ rest } : Worker).owes = true)
      (same : x'.callback = x.callback)
      (ready : ∀ task r, (task, .answered r) ∈ x'.runnable → (task, .answered r) ∈ x.runnable) :
      Fate ((w, .run (.worker s)) :: h) v s cb := by
    refine .waits _ hy (same.trans callback) owes' (fun e inCode => ?_) (fun g m h => ?_) goesOn
      (unmade ne)
    · rcases List.mem_append.mp inCode with pushed | left
      · exact absurd pushed (not_lost_own own e)
      · exact (lost e (by rw [hf]; exact List.mem_cons_of_mem _ left)).later step
    · exact fits g m (ready _ _ h)
  have decided (r : Except Failure Unit)
      (paid : ({ x' with frames := fs ++ rest } : Worker).owes = false)
      (told : Told ((w, .run (.worker s)) :: h) v s r)
      (inCode : .complete x.callback (.init r) ∈ fs) :
      Fate ((w, .run (.worker s)) :: h) v s cb :=
    .told _ hy paid r told (.code (.worker s) x.callback (by rw [callback])
      (by rw [code]; exact List.mem_append_left _ inCode))
  have kept := owes_own course hf own
  cases own with
  | noTransport none =>
    refine decided (.error (.connectionFailed "no transport is available"))
      (by simp [Worker.owes, Frame.decides])
      ⟨⟨fun made => absurd made (by simp), fun made => ?_⟩, fun e he => ?_⟩ (by simp)
    · exact absurd made (unmade (by simp))
    · cases he
      exact .client (step.settings.1.trans none)
  | lost e =>
    refine decided (.error e) (by simp [Worker.owes, Frame.decides])
      ⟨⟨fun made => absurd made (by simp), fun made => ?_⟩, fun e' he => ?_⟩ (by simp)
    · exact absurd made (unmade (by simp))
    · cases he
      exact (lost e (by rw [hf]; exact List.mem_cons_self ..)).later step
  | markInitialized calm state =>
    refine decided (.ok ()) (by simp [Worker.owes, Frame.decides])
      ⟨?_, fun e lost => absurd lost (by simp)⟩ (by simp)
    refine ⟨fun _ => ⟨w, v, List.mem_cons_self .., now, state, ?_⟩, fun _ => rfl⟩
    obtain ⟨after, -⟩ | ⟨-, busy⟩ := connection_of_markInitialized step hx hf
    · rw [after]
    · exact absurd ⟨calm, state⟩ busy
  | markRefused busy =>
    have began : Began h s := by
      obtain held | began := held
      · obtain ⟨-, calm, z, hz, -, same⟩ := owned.held s held
        rw [hx] at hz
        cases hz
        exact absurd ⟨calm, same.symm.trans stands⟩ busy
      · exact began
    refine decided (.error .interrupted) (by simp [Worker.owes, Frame.decides])
      ⟨⟨fun made => absurd made (by simp), fun made => ?_⟩, fun e he => ?_⟩ (by simp)
    · obtain before | ⟨-, before, after⟩ := made_step now made
      · exact absurd before notYet
      · obtain ⟨-, ready⟩ | ⟨same, -⟩ := connection_of_markInitialized step hx hf
        · exact absurd ready busy
        · rw [same, before] at after
          cases after
    · cases he
      exact .shutdown (began.later _)
  | goLive =>
    rw [Worker.owes, hf] at owes
    simp [Frame.decides] at owes
  | _ =>
    obtain ⟨kept, -⟩ | ⟨-, -, paid⟩ := kept
    · refine onwards (by simp) (kept.trans owes) rfl fun task r ready => ?_
      first
        | exact ready
        | simpa using ready
    · exfalso
      first
        | cases paid
        | (split at paid <;> simp [ticketsOf_cons, Frame.ticket?] at paid)

/-- In a turn a worker goes on with its first refresh. -/
theorem Fate.step_turn {k : Turn} (hs : w.Sound) (owned : w.Owned)
    (now : w.step (.turn s k) = some v) (hx : w.workers[s]? = some x)
    (callback : x.callback = cb) (owes : x.owes = true)
    (fits : ∀ g m, (.refresh g, .answered (.panic m)) ∉ x.runnable)
    (held : w.connection.worker = some s ∨ Began h s) (notYet : ¬Made h s) :
    Fate ((w, .turn s k) :: h) v s cb := by
  have step := worldStep_of_step now
  obtain ⟨opening, stands⟩ := stands_of_owes (hs.courses s x hx) owes
  have goesOn := held_or_began owned now hx stands held
  cases step with
  | turn s k z y es hz idle stays turn =>
    rw [hx] at hz
    cases hz
    have hy : ({ w.withWorker s y with log := es ++ w.log } : World).workers[s]? = some y := by
      have hs : s < w.workers.length := (List.getElem?_eq_some_iff.mp hx).1
      simp [World.withWorker, hs]
    obtain ⟨-, same, -, phase⟩ := turn.same
    have phase : y.phase = .opening := by
      obtain same | ⟨live, -⟩ := phase
      · exact same.trans opening
      · rw [opening] at live
        cases live
    have owes : y.owes = true := by
      have code := turn.code idle
      rw [opening] at code
      simp only [Worker.owes, phase, decide_true, Bool.true_and, Bool.not_eq_true']
      generalize y.frames = fs at code
      cases code with
      | refresh fs code => cases code <;> rfl
      | leave closed => cases closed
      | _ => rfl
    refine .waits y hy (same.trans callback) owes (fun e inCode => ?_)
      (fun g m ready => fits g m (turn.readyBefore _ _ ready)) goesOn fun made => ?_
    · obtain ⟨stopped, rfl⟩ | ⟨g, a, err, rfl, failed, rfl⟩ :=
        lost_of_turn turn idle opening fits inCode
      · refine .shutdown (Began.later ?_ _)
        obtain held | began := held
        · obtain ⟨-, -, z, hz, going, -⟩ := owned.held s held
          rw [hx] at hz
          cases hz
          rw [stopped] at going
          cases going
        · exact began
      · exact .refresh g a err (List.mem_cons_self ..) failed
    · obtain before | ⟨here, -⟩ := made_step now made
      · exact notYet before
      · cases here

/-- A step goes on with the initialization of a worker, or decides its outcome. -/
theorem Fate.step (hs : w.Sound) (owned : w.Owned) (now : w.step m = some v)
    (fate : Fate h w s cb) : Fate ((w, m) :: h) v s cb := by
  cases fate with
  | told x hx paid r told pledged => exact .step_told hs now hx paid told pledged
  | waits x hx callback owes lost fits held notYet =>
    have step := worldStep_of_step now
    obtain ⟨y, hy, worker⟩ := step.workerStep hx
    have goesOn := held_or_began owned now hx (stands_of_owes (hs.courses s x hx) owes).2 held
    have unmade (other : ∀ rest, m = .run (.worker s) → x.frames ≠ .markInitialized :: rest) :
        ¬Made ((w, m) :: h) s := by
      intro made
      obtain before | ⟨rfl, before, after⟩ := made_step now made
      · exact notYet before
      · obtain ⟨rest, code⟩ := code_of_made step before after
        rw [frames_worker hx] at code
        exact other rest rfl code
    have causes : ∀ e, .refreshed (.error e) ∈ x.frames → Cause ((w, m) :: h) v s e :=
      fun e inCode => (lost e inCode).later step
    cases worker with
    | others y away touched =>
      refine .waits y hy (touched.callback.trans callback) ?_ ?_ ?_ goesOn
        (unmade fun _ here => absurd here away)
      · rw [Worker.owes, touched.phase, touched.frames]
        exact owes
      · rwa [touched.frames]
      · rwa [touched.runnable]
    | foreign f rest fs u y here hf ran notOwn touched =>
      refine .waits _ hy (touched.callback.trans callback) ?_ (fun e inCode => ?_) ?_ goesOn
        (unmade fun rest' _ code => ?_)
      · rw [Worker.owes, hf, List.any_cons, f.decides_of_foreign notOwn] at owes
        rw [Worker.owes, touched.phase, List.any_append, ran.decides notOwn]
        exact owes
      · rcases List.mem_append.mp inCode with pushed | left
        · cases ran.foreign notOwn _ pushed
        · exact causes e (by rw [hf]; exact List.mem_cons_of_mem _ left)
      · rwa [touched.runnable]
      · rw [hf] at code
        obtain ⟨rfl, -⟩ := List.cons.inj code
        cases notOwn
    | own f rest fs x' c chain here hf own =>
      subst here
      exact .step_own hs owned now hx callback owes lost fits held notYet hf own hy
    | markFailed rest here hf =>
      refine .waits _ hy callback ?_ (fun e inCode => ?_) fits goesOn
        (unmade fun rest' _ code => ?_)
      · rw [Worker.owes, hf] at owes
        exact owes
      · exact causes e (by rw [hf]; exact List.mem_cons_of_mem _ inCode)
      · rw [hf] at code
        cases code
    | leave rest here hf =>
      rw [Worker.owes, hf] at owes
      simp [Frame.decides] at owes
    | reply i r task here waits ok =>
      refine .waits _ hy callback owes causes (fun g m ready => ?_) goesOn
        (unmade fun _ run => by rw [here] at run; cases run)
      rcases List.mem_append.mp ready with ready | new
      · exact fits g m ready
      · simp only [List.mem_singleton, Prod.mk.injEq, Ready.answered.injEq] at new
        obtain ⟨rfl, rfl⟩ := new
        cases ok
    | turn k y es here =>
      subst here
      exact .step_turn hs owned now hx callback owes fits held notYet

end Fates

end World

end RemoteNode.Session
