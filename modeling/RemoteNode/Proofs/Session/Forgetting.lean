import RemoteNode.Proofs.Session.Heights

/-! What is known is forgotten with a session. While nobody is in the midst of a refresh, nothing is
written down again, so that a shutdown leaves nothing behind from whatever thread it is called,
unless it is called in the midst of the part of a refresh that still writes. -/

namespace RemoteNode.Session

section Quiet
variable {w u v : World} {m : Move} {t : Thread} {s r : Nat} {x y : Worker} {f : Frame}
  {fs rest : List Frame}

/-- A worker that may change nothing any more writes nothing. -/
theorem not_writes_of_inactive (h : x.OnCourse) (inactive : ¬x.IsActive) : x.writes = false := by
  by_contra writes
  obtain ⟨f, inCode, writes⟩ := List.any_eq_true.mp (by simpa [Worker.writes] using writes)
  exact inactive (isActive_of_code h inCode (.inl writes))

/-- Whoever brings a result has brought it before, or is idle and goes on with a job. -/
theorem WorkerStep.concludes (step : WorkerStep w m s x y) (hf : f ∈ y.frames)
    (concludes : f.concludes = true) : f ∈ x.frames ∨
      ∃ k, m = .turn s k ∧ x.frames = [] ∧ x.stopped = false ∧ x.phase ≠ .ended := by
  -- what a frame pushes brings none
  have ran {fs : List Frame} (none : ∀ g ∈ fs, g.concludes = false) {rest : List Frame}
      (now : f ∈ fs ++ rest) : f ∈ rest := by
    rcases List.mem_append.mp now with pushed | left
    · rw [none f pushed] at concludes
      cases concludes
    · exact left
  cases step with
  | others y away touched => exact .inl (touched.frames ▸ hf)
  | foreign g rest fs u y here hg step =>
    rw [hg]
    exact .inl (List.mem_cons_of_mem _ (ran step.concludes hf))
  | own g rest fs x' c chain here hg own =>
    rw [hg]
    exact .inl (List.mem_cons_of_mem _ (ran own.concludes hf))
  | markFailed rest here hg | leave rest here hg =>
    rw [hg]
    exact .inl (List.mem_cons_of_mem _ hf)
  | reply => exact .inl hf
  | turn k _ es here idle stays turn =>
    exact .inr ⟨k, here, idle, (turn.concludes idle hf concludes).2.1, stays⟩

/-- An idle worker that goes on and was not told to stop may change something. -/
theorem isActive_of_idle (idle : x.frames = []) (going : x.stopped = false)
    (stays : x.phase ≠ .ended) : x.IsActive := by
  rw [Worker.IsActive, Worker.stands, idle, ownCode_nil]
  cases hp : x.phase with
  | opening => exact .inl rfl
  | live | closed => exact .inr ⟨rfl, .inl going⟩
  | ended => exact absurd hp stays

/-- The worker writes nothing more and brings no result. -/
def Worker.IsQuiet (x : Worker) : Prop :=
  x.writes = false ∧ ∀ g ∈ x.frames, g.concludes = false

theorem quiet_of_ended (h : x.OnCourse) (serving : x.Serving) (ended : x.phase = .ended) :
    x.IsQuiet := by
  constructor
  · refine not_writes_of_inactive h ?_
    rw [Worker.IsActive, Worker.stands, ended]
    simp [standsFor]
  · intro g hg
    by_contra concludes
    obtain ⟨-, live | closed⟩ := serving.alone g hg (by simpa using concludes)
    · rw [ended] at live
      cases live
    · rw [ended] at closed
      cases closed

/-- What a shutdown runs once the worker has been waited for. -/
def Frame.clears : Frame → Bool
  | forgetChain | forgetFeeAddress | finishShutdown => true
  | _ => false

/-- Where a shutdown clears what is known, the worker it waited for has ended or has settled. -/
theorem World.Owned.closing_of_clears (owned : w.Owned) (code : w.frames t = f :: rest)
    (finishes : .finishShutdown ∈ f :: rest) (clears : f.clears = true) :
    ∃ r, w.connection.running = some r ∧ w.connection.stopping = true ∧
      ∀ x, w.workers[r]? = some x → x.phase = .ended ∨ t = .worker r ∧ x.IsSettled := by
  have stopping : w.connection.stopping = true := by
    by_contra calm
    exact owned.calm (by simpa using calm) t (code ▸ finishes)
  obtain ⟨t', r, k, closing, running, -, only⟩ := owned.closing stopping
  obtain rfl : t = t' := only t (code ▸ finishes)
  obtain ⟨gs, hgs, -⟩ := closing.code
  have next := (shutdownCode_next closing.left (code.symm.trans hgs)).2
  have past : 1 < k := by
    obtain ⟨-, rfl⟩ | ⟨-, rfl⟩ | ⟨rfl, -⟩ | ⟨rfl, -⟩ | ⟨rfl, -⟩ := next
    · cases clears
    · cases clears
    all_goals omega
  refine ⟨r, running, stopping, fun x hx => ?_⟩
  by_cases here : t = .worker r
  · exact .inr ⟨here, closing.settled here x hx⟩
  · exact .inl (closing.ended past here x hx)

theorem WorldStep.started (step : WorldStep w m v)
    (new : s = w.workers.length) (hy : v.workers[s]? = some y) : w.connection.stopping = false ∧
      w.connection.state = .notInitialized ∧ v.chain = w.chain ∧
      v.connection = ⟨.initializing, false, some s, some s⟩ := by
  subst new
  have there := (List.getElem?_eq_some_iff.mp hy).1
  obtain same | ⟨more, t, cb, rest, rfl, code, -⟩ := step.length_workers
  · omega
  · obtain ⟨f, rest', fs, u, code', ran, rfl, -⟩ := step.ran
    rw [code] at code'
    obtain ⟨rfl, rfl⟩ := List.cons.inj code'
    rw [chain_setFrames, connection_setFrames]
    have length : (u.setFrames t (fs ++ rest)).workers.length = u.workers.length := by
      cases t <;> simp
    cases ran with
    | start cb calm state => exact ⟨calm, state, rfl, rfl⟩
    | startStopping | startAgain => omega
    | own f s x x' c chain fs here hx own => cases own
    | stray f own => cases own

namespace Stack

theorem finishes (h : Stack (.forgetFeeAddress :: rest)) : .finishShutdown ∈ rest := by
  generalize hg : Frame.forgetFeeAddress :: rest = gs at h
  cases h with
  | plain _ plain =>
    subst hg
    have := plain.stays (List.mem_cons_self ..)
    cases this
  | stale | staleJoin => cases hg
  | closing r k gs left plain =>
    obtain ⟨below, next⟩ := shutdownCode_next left hg
    have : k = 3 := by simpa using next
    subst this
    rw [below]
    simp [shutdownCode]

/-- What is under a frame stops nobody, or is what comes next of stopping a worker. -/
theorem under (h : Stack (f :: rest)) : Plain rest ∨ (∃ r gs, rest = .join r :: gs) ∨
    (∃ gs, rest = .forgetChain :: gs) ∨ (f = .forgetChain ∧ ∃ gs, rest = .forgetFeeAddress :: gs) ∨
      f = .forgetFeeAddress ∧ ∃ gs, rest = .finishShutdown :: gs := by
  generalize hg : f :: rest = code at h
  cases h with
  | plain _ plain => exact .inl (hg ▸ plain).tail
  | stale r gs plain => exact .inr (.inl ⟨r, gs, (List.cons.inj hg).2⟩)
  | staleJoin r gs plain => exact .inl ((List.cons.inj hg).2 ▸ plain)
  | closing r k gs left plain =>
    obtain ⟨rfl, next⟩ := shutdownCode_next left hg
    obtain ⟨rfl, rfl⟩ | ⟨rfl, rfl⟩ | ⟨rfl, rfl⟩ | ⟨rfl, rfl⟩ | ⟨rfl, rfl⟩ := next
    · exact .inr (.inl ⟨r, _, rfl⟩)
    · exact .inr (.inr (.inl ⟨_, rfl⟩))
    · exact .inr (.inr (.inr (.inl ⟨rfl, _, rfl⟩)))
    · exact .inr (.inr (.inr (.inr ⟨rfl, _, rfl⟩)))
    · exact .inl plain

/-- What is known of the chain is forgotten before the fee address. -/
theorem before_forgetFeeAddress (h : Stack (f :: .forgetFeeAddress :: rest)) :
    f = .forgetChain := by
  obtain plain | ⟨r, gs, below⟩ | ⟨gs, below⟩ | ⟨same, -⟩ | ⟨-, gs, below⟩ := under h
  · have := plain.stays (List.mem_cons_self ..)
    cases this
  · cases below
  · cases below
  · exact same
  · cases below

/-- The fee address is forgotten before the end. -/
theorem before_finishShutdown (h : Stack (f :: .finishShutdown :: rest)) :
    f = .forgetFeeAddress := by
  obtain plain | ⟨r, gs, below⟩ | ⟨gs, below⟩ | ⟨-, gs, below⟩ | ⟨same, -⟩ := under h
  · have := plain.stays (List.mem_cons_self ..)
    cases this
  · cases below
  · cases below
  · cases below
  · exact same

end Stack

/-- Code in the midst of a shutdown was there before, under another frame or on top. -/
theorem clears_source {gs : List Frame} (step : ThreadStep w m v t fs gs) {g : Frame}
    (code : gs = g :: rest) (stops : g.stops = true) (notSignal : ∀ r, g ≠ .signal r) :
    fs = g :: rest ∨
      ∃ f u, m = .run t ∧ fs = f :: g :: rest ∧ FrameStep w t f u [] ∧
        v = u.setFrames t ([] ++ g :: rest) := by
  have none {fs : List Frame} (plain : Plain fs) (same : fs = g :: rest) : False := by
    have := plain.stays (same ▸ List.mem_cons_self ..)
    rw [stops] at this
    cases this
  cases step with
  | same => exact .inl code
  | run f below pushed u here before ran result =>
    cases pushed with
    | nil =>
      obtain rfl : below = g :: rest := code
      exact .inr ⟨f, u, here, rfl, ran, result⟩
    | cons g' gs =>
      exfalso
      obtain ⟨rfl, -⟩ := List.cons.inj code
      cases hf : f.stops with
      | true => cases Stack.pushed_of_stops ran hf
      | false =>
        obtain plain | ⟨cb, s, rfl, same⟩ | ⟨src, a, s, rfl, same⟩ := Stack.pushed ran hf
        · have := plain.stays (List.mem_cons_self ..)
          rw [stops] at this
          cases this
        · obtain ⟨rfl, -⟩ := List.cons.inj same
          exact notSignal s rfl
        · obtain ⟨rfl, -⟩ := List.cons.inj same
          exact notSignal s rfl
  | call | release | started => exact (none (.of_forall (by simp [Frame.stops])) code).elim
  | turn s k x x' es here turn hx idle step => exact (none (.turn (step.code idle)) code).elim

end Quiet

namespace World

/-- Nothing of a session is known where there is none. -/
structure Forgets (w : World) : Prop where
  chain : w.connection.state = .notInitialized → w.chain = .initial
  fee : w.connection.state ≠ .initialized → w.feeAddress = ""
  /-- A shutdown leaves the state as it is until the end, and so does the worker, or it fails. -/
  stands : w.connection.stopping = true → ∀ s x, w.connection.running = some s →
    w.workers[s]? = some x → x.stands = w.connection.state ∨ x.stands = .notInitialized
  concluding : ∀ (s : Nat) (x : Worker) (f : Frame), w.workers[s]? = some x → f ∈ x.frames →
    f.concludes = true → w.connection.running = some s
  connecting : ∀ (s : Nat) (x : Worker), w.workers[s]? = some x → .connect ∈ x.frames →
    w.chain = .initial
  failing : ∀ (s : Nat) (x : Worker), w.workers[s]? = some x → .markFailed ∈ x.frames →
    .forgetChain ∈ x.frames ∨ w.chain = .initial
  clearing : ∀ t rest, w.frames t = .forgetFeeAddress :: rest → w.chain = .initial
  finishing : ∀ t rest, w.frames t = .finishShutdown :: rest →
    w.chain = .initial ∧ w.feeAddress = ""
  ordered : w.Ordered

namespace Forgets
variable {w u v : World} {m : Move} {t : Thread} {s r : Nat} {x y : Worker} {f : Frame}
  {fs rest : List Frame}

/-- Where a shutdown clears what is known, nobody is in the midst of anything. -/
theorem quiet_of_clears (h : w.Forgets) (owned : w.Owned) (hs : w.Sound) (serving : w.Serving)
    (code : w.frames t = f :: rest) (finishes : .finishShutdown ∈ f :: rest)
    (clears : f.clears = true) (hx : w.workers[s]? = some x) : x.IsQuiet := by
  obtain ⟨r, running, -, settled⟩ := owned.closing_of_clears code finishes clears
  have mine (other : w.connection.running = some s) : x.phase = .ended ∨
      t = .worker s ∧ x.IsSettled := by
    obtain rfl : r = s := Option.some.inj (running.symm.trans other)
    exact settled x hx
  constructor
  · by_contra writes
    have active : x.IsActive := by
      by_contra inactive
      exact writes (not_writes_of_inactive (hs.courses s x hx) inactive)
    obtain ended | ⟨-, -, quiet⟩ := mine (owned.active s x hx active)
    · exact writes (quiet_of_ended (hs.courses s x hx) (serving.workers s x hx) ended).1
    · exact writes quiet
  · intro g hg
    by_contra concludes
    have concludes : g.concludes = true := by simpa using concludes
    obtain ended | ⟨rfl, -⟩ := mine (h.concluding s x g hx hg concludes)
    · have := (quiet_of_ended (hs.courses s x hx) (serving.workers s x hx) ended).2 g hg
      rw [concludes] at this
      cases this
    · have alone := ((serving.workers s x hx).alone g hg concludes).1
      rw [frames_worker hx, alone] at code
      obtain ⟨rfl, -⟩ := List.cons.inj code
      cases g <;> simp [Frame.clears, Frame.concludes] at clears concludes

/-- Where the connection is not initialized, nobody writes. -/
theorem quiet_of_state (h : w.Forgets) (owned : w.Owned) (hs : w.Sound)
    (state : w.connection.state = .notInitialized) (hx : w.workers[s]? = some x) :
    x.writes = false := by
  by_cases active : x.IsActive
  · have stands : x.stands = .notInitialized := by
      obtain ⟨-, -, -, same⟩ | ⟨stopping, -⟩ := owned.active_cases hx active
      · rw [same, state]
      · obtain same | none := h.stands stopping s x (owned.active s x hx active) hx
        · rw [same, state]
        · exact none
    rw [Worker.IsActive, stands] at active
    simp at active
  · exact not_writes_of_inactive (hs.courses s x hx) active

/-- Who brings a result serves an initialized connection. -/
theorem state_of_concludes (h : w.Forgets) (owned : w.Owned) (serving : w.Serving)
    (hx : w.workers[s]? = some x) (hf : f ∈ x.frames) (concludes : f.concludes = true) :
    w.connection.state = .initialized ∧ x.stands = .initialized := by
  have stands : x.stands = .initialized := by
    obtain ⟨-, live | closed⟩ := (serving.workers s x hx).alone f hf concludes
    · rw [Worker.stands, live]; rfl
    · rw [Worker.stands, closed]; rfl
  refine ⟨?_, stands⟩
  have running := h.concluding s x f hx hf concludes
  obtain held | stopping := (owned.running s running).2
  · obtain ⟨-, -, z, hz, -, same⟩ := owned.held s held
    rw [hx] at hz
    cases hz
    exact same.symm.trans stands
  · obtain same | none := h.stands stopping s x running hx
    · exact same.symm.trans stands
    · rw [stands] at none
      cases none

/-- Nobody else writes while a worker has no answer yet to take note of. -/
theorem quiet_of_active (owned : w.Owned) (hs : w.Sound) (hx : w.workers[s]? = some x)
    (active : x.IsActive) (quiet : x.writes = false) (hy : w.workers[r]? = some y) :
    y.writes = false := by
  by_cases other : y.IsActive
  · have same := (owned.active s x hx active).symm.trans (owned.active r y hy other)
    obtain rfl := Option.some.inj same
    rw [hx] at hy
    cases hy
    exact quiet
  · exact not_writes_of_inactive (hs.courses r y hy) other

/-- A worker that is about to report a failure is in the midst of nothing else. -/
theorem quiet_of_failing (hs : w.Sound) (hx : w.workers[s]? = some x)
    (fails : .markFailed ∈ x.frames) : x.IsActive ∧ x.writes = false := by
  have inCode := (mem_ownCode (f := .markFailed) rfl).mpr fails
  refine ⟨isActive_of_code (hs.courses s x hx) inCode (.inr (.inr rfl)), ?_⟩
  have course := (hs.courses s x hx).course
  rw [Worker.writes]
  generalize x.phase = p, x.refreshing = q, x.refreshes = n, ownCode x.frames = o at *
  cases course with
  | lost | failed => rfl
  | refresh p fs stays code => cases code <;> simp at inCode
  | _ => simp at inCode

theorem quiet_of_connecting (hs : w.Sound) (hx : w.workers[s]? = some x)
    (connects : .connect ∈ x.frames) : x.IsActive ∧ x.writes = false := by
  have inCode := (mem_ownCode (f := .connect) rfl).mpr connects
  have course := (hs.courses s x hx).course
  rw [Worker.IsActive, Worker.stands, Worker.writes]
  generalize x.phase = p, x.refreshing = q, x.refreshes = n, ownCode x.frames = o at *
  cases course with
  | connect => exact ⟨.inl rfl, rfl⟩
  | refresh p fs stays code => cases code <;> simp at inCode
  | _ => simp at inCode

/-- A worker that reports a failure next has forgotten what is known of the chain. -/
theorem initial_of_failing (h : w.Forgets) (hs : w.Sound) (hx : w.workers[s]? = some x)
    (code : x.frames = .markFailed :: rest) : w.chain = .initial := by
  obtain forgets | initial := h.failing s x hx (by rw [code]; exact List.mem_cons_self ..)
  · exfalso
    -- what is forgotten further down would come before another failure
    have stacked : Stack (.markFailed :: rest) := by
      rw [← code, ← frames_worker hx]
      exact hs.stacked _
    have plain := stacked.plain_of_head rfl (by simp)
    have again : .markFailed ∈ ownCode rest := by
      rw [mem_ownCode rfl]
      refine plain.tail.markFailed_mem ?_
      rw [code] at forgets
      simpa using forgets
    have course := (hs.courses s x hx).course
    rw [code, ownCode_own rfl] at course
    generalize x.phase = p, x.refreshing = q, x.refreshes = n, ownCode rest = o at *
    cases course with
    | failed => simp at again
    | refresh p fs stays code => cases code
  · exact initial

/-- Nothing is known of the chain while the connection is not initialized. -/
theorem chain_step (h : w.Forgets) (owned : w.Owned) (hs : w.Sound) (serving : w.Serving)
    (step : WorldStep w m v) (state : v.connection.state = .notInitialized) :
    v.chain = .initial := by
  have unchanged (before : w.connection.state = .notInitialized) : v.chain = .initial :=
    step.chain_initial (h.chain before) fun s x _ hx => h.quiet_of_state owned hs before hx
  obtain same | ⟨t, f, rest, rfl, code, change⟩ := step.connectionStep
  · exact unchanged (same ▸ state)
  · generalize v.connection = c at change state
    cases change with
    | keep | begin => exact unchanged state
    | take cb free | start cb calm free => exact unchanged free
    | mark => cases state
    | fail calm opening =>
      obtain ⟨s, x, rfl, hx⟩ := hs.worker_of_mem rfl (by rw [code]; exact List.mem_cons_self ..)
      rw [frames_worker hx] at code
      obtain ⟨active, quiet⟩ := quiet_of_failing hs hx (by rw [code]; exact List.mem_cons_self ..)
      exact step.chain_initial (h.initial_of_failing hs hx code) fun r y _ hy =>
        quiet_of_active owned hs hx active quiet hy
    | finish =>
      refine step.chain_initial (h.finishing t rest code).1 fun s x _ hx => ?_
      exact (h.quiet_of_clears owned hs serving code (List.mem_cons_self ..) rfl hx).1

/-- There is no fee address while the connection is not initialized. -/
theorem fee_step (h : w.Forgets) (owned : w.Owned) (serving : w.Serving) (step : WorldStep w m v)
    (state : v.connection.state ≠ .initialized) : v.feeAddress = "" := by
  have unchanged (before : w.connection.state ≠ .initialized) : v.feeAddress = "" := by
    refine step.feeAddress_empty (h.fee before) fun t f rest here code => ?_
    by_contra concludes
    have concludes : f.concludes = true := by simpa using concludes
    obtain ⟨s, x, rfl, hx, alone, -⟩ := serving.exists_worker code concludes
    exact before (h.state_of_concludes owned serving hx (by rw [alone]; simp) concludes).1
  obtain same | ⟨t, f, rest, rfl, code, change⟩ := step.connectionStep
  · exact unchanged (same ▸ state)
  · generalize v.connection = c at change state
    cases change with
    | keep | begin => exact unchanged state
    | take cb free | start cb calm free => exact unchanged (by rw [free]; simp)
    | mark => exact absurd rfl state
    | fail calm opening => exact unchanged (by rw [opening]; simp)
    | finish =>
      refine step.feeAddress_empty (h.finishing t rest code).2 fun t' f' rest' here code' => ?_
      cases here
      rw [code] at code'
      cases code'
      rfl

/-- A shutdown leaves the state as it is until the end, and so does the worker, or it fails. -/
theorem stands_step (h : w.Forgets) (owned : w.Owned) (hs : w.Sound) (step : WorldStep w m v)
    (stopping : v.connection.stopping = true) (running : v.connection.running = some s)
    (hy : v.workers[s]? = some y) :
    y.stands = v.connection.state ∨ y.stands = .notInitialized := by
  -- the worker goes on standing for what it stood for, or it has decided
  have goes {x : Worker} (busy : w.connection.stopping = true) (hx : w.workers[s]? = some x)
      (worker : WorkerStep w m s x y) (before : x.stands = w.connection.state ∨
        x.stands = .notInitialized) :
      y.stands = w.connection.state ∨ y.stands = .notInitialized := by
    cases worker.standStep (hs.courses s x hx) with
    | keep same stays => rwa [same]
    | mark rest here code opening calm =>
      rw [busy] at calm
      cases calm
    | refuse rest here code opening busy after | fail rest here code opening after
    | left rest here code stopped after => exact .inr after
  obtain same | ⟨t, f, rest, rfl, code, change⟩ := step.connectionStep
  · rw [same] at stopping running ⊢
    obtain ⟨x, hx, worker⟩ | ⟨new, -⟩ := step.cameFrom hy
    · exact goes stopping hx worker (h.stands stopping s x running hx)
    · have := (owned.running s running).1
      omega
  · generalize v.connection = c at change stopping running ⊢
    cases change with
    | keep =>
      obtain ⟨x, hx, worker⟩ | ⟨new, -⟩ := step.cameFrom hy
      · exact goes stopping hx worker (h.stands stopping s x running hx)
      · have := (owned.running s running).1
        omega
    | take | start | finish => cases stopping
    | mark s here calm | fail calm => rw [calm] at stopping; cases stopping
    | begin src a r calm held =>
      obtain ⟨running', -, x, hx, -, stands⟩ := owned.held r held
      obtain rfl : r = s := Option.some.inj (running'.symm.trans running)
      obtain ⟨z, hz, worker⟩ := step.workerStep hx
      rw [hy] at hz
      cases hz
      cases worker.standStep (hs.courses r x hx) with
      | keep same stays => exact .inl (same.trans stands)
      | mark rest' here code' | refuse rest' here code' | fail rest' here code'
      | left rest' here code' =>
        cases here
        rw [frames_worker hx, code'] at code
        cases code

theorem concluding_step (h : w.Forgets) (owned : w.Owned) (hs : w.Sound) (serving : w.Serving)
    (step : WorldStep w m v) (hy : v.workers[s]? = some y) (hf : f ∈ y.frames)
    (concludes : f.concludes = true) : v.connection.running = some s := by
  obtain ⟨x, hx, worker⟩ | ⟨-, t, cb, rest, -, -, rfl⟩ := step.cameFrom hy
  · obtain before | ⟨k, rfl, idle, going, stays⟩ := worker.concludes hf concludes
    · have running := h.concluding s x f hx before concludes
      obtain ⟨state, stands⟩ := h.state_of_concludes owned serving hx before concludes
      cases m with
      | run t =>
        obtain ⟨g, rest, fs, u, code, ran, rfl, -⟩ := step.ran
        rw [connection_setFrames]
        obtain same | ⟨none, rfl | free⟩ | ⟨new, free⟩ := ran.running
        · rw [same, running]
        · have :=
            (h.quiet_of_clears owned hs serving code (List.mem_cons_self ..) rfl hx).2 f before
          rw [concludes] at this
          cases this
        · rw [state] at free
          cases free.1
        · rw [state] at free
          cases free.1
      | call | release | reply | turn => cases step; exact running
    · cases step
      exact owned.active s x hx (isActive_of_idle idle going stays)
  · simp only [Worker.new, List.mem_singleton] at hf
    subst hf
    cases concludes

theorem connecting_step (h : w.Forgets) (owned : w.Owned) (hs : w.Sound) (step : WorldStep w m v)
    (hy : v.workers[s]? = some y) (connects : .connect ∈ y.frames) : v.chain = .initial := by
  obtain ⟨x, hx, worker⟩ | ⟨new, -⟩ := step.cameFrom hy
  · have before : .connect ∈ x.frames := by
      obtain old | ⟨g, rest, fs, x', c, chain, -, -, own, pushed⟩ | ⟨k, es, -, idle, turn⟩ :=
        worker.source rfl connects
      · exact old
      · cases own <;> simp at pushed
      · have code := turn.code idle
        generalize y.frames = fs at code connects
        cases code with
        | refresh fs code => cases code <;> simp at connects
        | _ => simp at connects
    obtain ⟨active, quiet⟩ := quiet_of_connecting hs hx before
    exact step.chain_initial (h.connecting s x hx before) fun r z _ hz =>
      quiet_of_active owned hs hx active quiet hz
  · -- a worker is started where nothing is known
    obtain ⟨-, state, same, -⟩ := step.started new hy
    rw [same]
    exact h.chain state

theorem failing_step (h : w.Forgets) (owned : w.Owned) (hs : w.Sound) (step : WorldStep w m v)
    (hy : v.workers[s]? = some y) (fails : .markFailed ∈ y.frames) :
    .forgetChain ∈ y.frames ∨ v.chain = .initial := by
  obtain ⟨x, hx, worker⟩ | ⟨-, t, cb, rest, -, -, rfl⟩ := step.cameFrom hy
  · have before (old : .markFailed ∈ x.frames) : .forgetChain ∈ y.frames ∨ v.chain = .initial := by
      obtain forgets | initial := h.failing s x hx old
      · rw [← frames_worker hx] at forgets
        obtain there | ⟨rest, fs, u, rfl, code, ran, rfl, -⟩ := step.frame forgets
        · exact .inl (frames_worker hy ▸ there)
        · right
          rw [chain_setFrames]
          cases ran with
          | forgetChain => rfl
          | own f s x x' c chain fs here hx own => cases own
          | stray f own => cases own
      · obtain ⟨active, quiet⟩ := quiet_of_failing hs hx old
        exact .inr (step.chain_initial initial fun r z _ hz =>
          quiet_of_active owned hs hx active quiet hz)
    obtain old | ⟨g, rest, fs, x', c, chain, code, now, own, pushed⟩ | ⟨k, es, -, idle, turn⟩ :=
      worker.source rfl fails
    · exact before old
    · cases own with
      | lost => simp [now]
      | noTransport =>
        have connects : .connect ∈ x.frames := by rw [code]; exact List.mem_cons_self ..
        obtain ⟨active, quiet⟩ := quiet_of_connecting hs hx connects
        exact .inr (step.chain_initial (h.connecting s x hx connects) fun r z _ hz =>
          quiet_of_active owned hs hx active quiet hz)
      | _ => simp at pushed
    · cases (turn.code idle).isPushed _ fails
  · simp [Worker.new] at fails

theorem clearing_step (h : w.Forgets) (owned : w.Owned) (hs : w.Sound) (serving : w.Serving)
    (step : WorldStep w m v) (code : v.frames t = .forgetFeeAddress :: rest) :
    v.chain = .initial := by
  obtain old | ⟨f, u, rfl, old, ran, rfl⟩ := clears_source (step.threadStep t) code rfl (by simp)
  · refine step.chain_initial (h.clearing t rest old) fun s x _ hx => ?_
    have finishes := Stack.finishes (old ▸ hs.stacked t)
    exact (h.quiet_of_clears owned hs serving old (List.mem_cons_of_mem _ finishes) rfl hx).1
  · have := Stack.before_forgetFeeAddress (old ▸ hs.stacked t)
    subst this
    rw [chain_setFrames]
    cases ran with
    | forgetChain => rfl
    | own f s x x' c chain fs here hx own => cases own
    | stray f own => cases own

theorem finishing_step (h : w.Forgets) (owned : w.Owned) (hs : w.Sound) (serving : w.Serving)
    (step : WorldStep w m v) (code : v.frames t = .finishShutdown :: rest) :
    v.chain = .initial ∧ v.feeAddress = "" := by
  obtain old | ⟨f, u, rfl, old, ran, rfl⟩ := clears_source (step.threadStep t) code rfl (by simp)
  · obtain ⟨chain, fee⟩ := h.finishing t rest old
    have quiet {s : Nat} {x : Worker} (hx : w.workers[s]? = some x) :=
      h.quiet_of_clears owned hs serving old (List.mem_cons_self ..) rfl hx
    refine ⟨step.chain_initial chain fun s x _ hx => (quiet hx).1,
      step.feeAddress_empty fee fun t' f' rest' here code' => ?_⟩
    by_contra concludes
    have concludes : f'.concludes = true := by simpa using concludes
    obtain ⟨s, x, rfl, hx, alone, -⟩ := serving.exists_worker code' concludes
    have := (quiet hx).2 f' (by rw [alone]; simp)
    rw [concludes] at this
    cases this
  · have := Stack.before_finishShutdown (old ▸ hs.stacked t)
    subst this
    have chain := h.clearing t _ old
    rw [chain_setFrames, feeAddress_setFrames]
    cases ran with
    | forgetFeeAddress => exact ⟨chain, rfl⟩
    | own f s x x' c chain fs here hx own => cases own
    | stray f own => cases own

theorem ordered_step (h : w.Forgets) (owned : w.Owned) (hs : w.Sound) (serving : w.Serving)
    (step : WorldStep w m v) : v.Ordered := by
  refine h.ordered.step hs step fun t rest _ code s x hx => ?_
  obtain finishes | ⟨r, y, gs, rfl, hy, rfl⟩ := hs.forgetting_cases code
  · exact (h.quiet_of_clears owned hs serving code (List.mem_cons_of_mem _ finishes) rfl hx).1
  · rw [frames_worker hy] at code
    obtain ⟨active, quiet⟩ := quiet_of_failing hs hy (by rw [code]; simp)
    exact quiet_of_active owned hs hy active quiet hx

theorem step (h : w.Forgets) (owned : w.Owned) (hs : w.Sound) (serving : w.Serving)
    (step : WorldStep w m v) : v.Forgets where
  chain state := h.chain_step owned hs serving step state
  fee state := h.fee_step owned serving step state
  stands stopping _ _ running hy := h.stands_step owned hs step stopping running hy
  concluding _ _ _ hy hf concludes := h.concluding_step owned hs serving step hy hf concludes
  connecting _ _ hy connects := h.connecting_step owned hs step hy connects
  failing _ _ hy fails := h.failing_step owned hs step hy fails
  clearing _ _ code := h.clearing_step owned hs serving step code
  finishing _ _ code := h.finishing_step owned hs serving step code
  ordered := h.ordered_step owned hs serving step

theorem of_untouched (h : w.Untouched) : w.Forgets := by
  have none (s : Nat) : w.workers[s]? = none := by rw [h.workers]; rfl
  have empty (t : Thread) (f : Frame) (rest : List Frame) : w.frames t ≠ f :: rest := by
    rw [h.frames]
    nofun
  constructor
  · intro _
    obtain ⟨n, timeout, transport, reaction, kept, rfl⟩ := h
    rfl
  · intro _
    obtain ⟨n, timeout, transport, reaction, kept, rfl⟩ := h
    rfl
  · intro stopping
    rw [h.connection] at stopping
    cases stopping
  · intro s x f hx
    rw [none] at hx
    cases hx
  · intro s x hx
    rw [none] at hx
    cases hx
  · intro s x hx
    rw [none] at hx
    cases hx
  · exact fun t rest code => absurd code (empty t _ rest)
  · exact fun t rest code => absurd code (empty t _ rest)
  · exact .of_untouched h

/-- In every world of an orderly run nothing of a session is known where there is none. -/
theorem of_reaches (first : w.Untouched) (h : ReachesBy Orderly w v) : v.Forgets := by
  have all := h.keeps (P := fun w => w.Sound ∧ w.Owned ∧ w.Serving ∧ w.Forgets)
    ⟨.of_untouched first, .of_untouched first, .of_untouched first, of_untouched first⟩
    fun w m v ⟨sound, owned, serving, forgets⟩ ok step =>
      ⟨sound.step step, owned.step sound ok step, serving.step step,
        forgets.step owned sound serving step⟩
  exact all.2.2.2

end Forgets

end World

end RemoteNode.Session
