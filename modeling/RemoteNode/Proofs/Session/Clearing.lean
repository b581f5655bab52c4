import RemoteNode.Proofs.Session.Convergence
import RemoteNode.Proofs.Session.Forgetting

/-! What a shutdown leaves. From wherever it is called, nothing is written down again once it has
returned, until a worker is started; unless it is called in the midst of the part of a refresh that
writes, by the worker that refreshes. A run in which an observer does that is given. -/

namespace RemoteNode.Session

section Quiet
variable {w u v : World} {m : Move} {t : Thread} {s k : Nat} {x y : Worker} {f : Frame}
  {fs gs rest : List Frame}

/-- A worker that may change nothing stays quiet. -/
theorem WorkerStep.isQuiet_of_inactive (course : x.OnCourse) (step : WorkerStep w m s x y)
    (inactive : ¬x.IsActive) (quiet : x.IsQuiet) : ¬y.IsActive ∧ y.IsQuiet := by
  have still : ¬y.IsActive := fun active => inactive (step.isActive course active)
  refine ⟨still, not_writes_of_inactive (course.step step) still, fun g hg => ?_⟩
  by_contra concludes
  have concludes : g.concludes = true := by simpa using concludes
  obtain before | ⟨k, -, idle, going, stays⟩ := step.concludes hg concludes
  · rw [quiet.2 g before] at concludes
    cases concludes
  · exact inactive (isActive_of_idle idle going stays)

/-- A quiet worker stays quiet if it was told to stop or runs code that is no part of its course. -/
theorem WorkerStep.isQuiet (step : WorkerStep w m s x y) (quiet : x.IsQuiet)
    (held : x.stopped = true ∨ ∃ f rest, x.frames = f :: rest ∧ f.isOwn = false) : y.IsQuiet := by
  constructor
  · obtain stopped | ⟨f, rest, code, foreign⟩ := held
    · by_contra writes
      obtain before | going := step.writes (by simpa using writes)
      · rw [quiet.1] at before
        cases before
      · rw [stopped] at going
        cases going
    · rw [Worker.writes, (step.course_eq code foreign).2]
      exact quiet.1
  · intro g hg
    by_contra concludes
    have concludes : g.concludes = true := by simpa using concludes
    obtain before | ⟨k, -, idle, going, -⟩ := step.concludes hg concludes
    · rw [quiet.2 g before] at concludes
      cases concludes
    · obtain stopped | ⟨f, rest, code, -⟩ := held
      · rw [stopped] at going
        cases going
      · rw [idle] at code
        cases code

/-- Where no handle is held, no shutdown begins. -/
theorem finishes_source (vacant : w.connection.worker = none) (step : ThreadStep w m v t fs gs)
    (finishes : .finishShutdown ∈ gs) : .finishShutdown ∈ fs := by
  obtain old | ⟨f, rest, u, new, -, -, ran, pushed⟩ := step.source rfl finishes
  · exact old
  · exfalso
    cases ran with
    | beginShutdown src a s calm held =>
      rw [vacant] at held
      cases held
    | own f s x x' c chain fs isHere hx own => cases own <;> simp at pushed
    | _ => simp at pushed

/-- What the next frame of a shutdown does that has come so far. -/
inductive ShutdownStep (w : World) (t : Thread) (s : Nat) : Nat → World → Prop
  | signal : ShutdownStep w t s 0
      { w with workers := w.workers.modify s fun x => { x with stopped := true } }
  | join (free : t = .worker s ∨ w.hasEnded s = true) : ShutdownStep w t s 1 w
  | forgetChain : ShutdownStep w t s 2 { w with chain := .initial }
  | forgetFeeAddress : ShutdownStep w t s 3 { w with feeAddress := "" }
  | finishShutdown : ShutdownStep w t s 4 { w with connection := w.connection.finishShutdown }

theorem ShutdownStep.of_next (ran : FrameStep w t f u fs)
    (next : k = 0 ∧ f = .signal s ∨ k = 1 ∧ f = .join s ∨ k = 2 ∧ f = .forgetChain ∨
      k = 3 ∧ f = .forgetFeeAddress ∨ k = 4 ∧ f = .finishShutdown) :
    fs = [] ∧ ShutdownStep w t s k u := by
  have foreign : f.isOwn = false := by
    obtain ⟨-, rfl⟩ | ⟨-, rfl⟩ | ⟨-, rfl⟩ | ⟨-, rfl⟩ | ⟨-, rfl⟩ := next <;> rfl
  cases ran with
  | signal r =>
    obtain ⟨rfl, rfl⟩ : k = 0 ∧ r = s := by simpa using next
    exact ⟨rfl, .signal⟩
  | join r free =>
    obtain ⟨rfl, rfl⟩ : k = 1 ∧ r = s := by simpa using next
    exact ⟨rfl, .join free⟩
  | forgetChain =>
    obtain rfl : k = 2 := by simpa using next
    exact ⟨rfl, .forgetChain⟩
  | forgetFeeAddress =>
    obtain rfl : k = 3 := by simpa using next
    exact ⟨rfl, .forgetFeeAddress⟩
  | finishShutdown =>
    obtain rfl : k = 4 := by simpa using next
    exact ⟨rfl, .finishShutdown⟩
  | own f s x x' c chain fs isHere hx own =>
    rw [own.isOwn] at foreign
    cases foreign
  | stray f own =>
    rw [own] at foreign
    cases foreign
  | _ => simp at next

theorem shutdown_runs (left : k < 5) (code : w.frames t = (shutdownCode s).drop k ++ rest)
    (step : WorldStep w m v) : v.frames t = (shutdownCode s).drop k ++ rest ∨
      v.frames t = (shutdownCode s).drop (k + 1) ++ rest ∧
        ∃ u, ShutdownStep w t s k u ∧
          v = u.setFrames t ((shutdownCode s).drop (k + 1) ++ rest) := by
  obtain ⟨f, gs, head⟩ : ∃ f gs, w.frames t = f :: gs := by
    rw [code]
    match k, left with
    | 0, _ | 1, _ | 2, _ | 3, _ | 4, _ => exact ⟨_, _, rfl⟩
  obtain ⟨rfl, next⟩ := shutdownCode_next left (head.symm.trans code)
  by_cases here : m = .run t
  · subst here
    right
    obtain ⟨f', gs', fs, u, head', ran, rfl, now⟩ := step.ran
    rw [head] at head'
    obtain ⟨rfl, rfl⟩ := List.cons.inj head'
    obtain ⟨rfl, done⟩ := ShutdownStep.of_next ran next
    exact ⟨now, u, done, rfl⟩
  · left
    have thread := step.threadStep t
    rw [head] at thread
    generalize v.frames t = code' at thread
    cases thread with
    | same => exact head.symm.trans code
    | run f rest fs u here' => exact absurd here' here

/-- Where no worker is started, a handle that nobody holds stays so. -/
theorem WorldStep.vacant (step : WorldStep w m v) (same : v.workers.length = w.workers.length)
    (vacant : w.connection.worker = none) : v.connection.worker = none ∧
      (w.connection = .initial → v.connection = .initial) := by
  obtain unchanged | ⟨t, f, rest, rfl, code, change⟩ := step.connectionStep
  · rw [unchanged]
    exact ⟨vacant, id⟩
  · have start (cb : Callback) (calm : w.connection.stopping = false)
        (state : w.connection.state = .notInitialized) : f ≠ .start cb := by
      rintro rfl
      obtain ⟨f', rest', fs, u, code', ran, rfl, -⟩ := step.ran
      rw [code] at code'
      obtain ⟨rfl, rfl⟩ := List.cons.inj code'
      cases ran with
      | start => cases t <;> simp [vacant] at same
      | startStopping cb stopping =>
        rw [calm] at stopping
        cases stopping
      | startAgain cb calm other => exact other state
      | own f s x x' c chain fs isHere hx own => cases own
      | stray f own => cases own
    generalize v.connection = c at change
    cases change with
    | keep => exact ⟨vacant, id⟩
    | take => exact ⟨rfl, fun _ => rfl⟩
    | start cb calm state => exact absurd rfl (start cb calm state)
    | mark s here calm state | fail calm state =>
      refine ⟨vacant, fun initial => ?_⟩
      rw [initial] at state
      cases state
    | begin src a s calm held =>
      rw [vacant] at held
      cases held
    | finish =>
      refine ⟨vacant, fun initial => ?_⟩
      rw [initial]
      rfl

end Quiet

namespace World

/-- What a shutdown of a worker has done once so many of its frames have run. -/
structure Done (w : World) (t : Thread) (s k : Nat) : Prop where
  here : t = .worker s → ∀ x, w.workers[s]? = some x → x.IsQuiet ∧ (0 < k → x.stopped = true)
  away : 1 < k → t ≠ .worker s → ∀ x, w.workers[s]? = some x → x.phase = .ended
  chain : 2 < k → w.chain = .initial
  fee : 3 < k → w.feeAddress = ""
  ended : 4 < k → w.connection = .initial

/-- A thread shuts down a worker and has come so far. Nobody else may change what is known. -/
structure Shutting (w : World) (t : Thread) (s k : Nat) : Prop where
  le : k ≤ 5
  code : k < 5 → ∃ rest, w.frames t = (shutdownCode s).drop k ++ rest ∧ Plain rest
  alone : ∀ t', .finishShutdown ∈ w.frames t' → t' = t ∧ k < 5
  vacant : w.connection.worker = none
  others : ∀ r x, r ≠ s → w.workers[r]? = some x → ¬x.IsActive ∧ x.IsQuiet
  done : w.Done t s k
  ordered : w.Ordered

section Clearing
variable {w u v : World} {m : Move} {t t' : Thread} {s r k : Nat} {x y : Worker}
  {rest : List Frame} {src : Source} {a : Act}

theorem Done.next (h : w.Done t s k) (vacant : w.connection.worker = none)
    (ran : ShutdownStep w t s k u) (fs : List Frame) (after : (u.setFrames t fs).Done t s k) :
    (u.setFrames t fs).Done t s (k + 1) := by
  constructor
  · intro here y hy
    refine ⟨(after.here here y hy).1, fun _ => ?_⟩
    cases ran with
    | signal =>
      obtain ⟨z, hz, e⟩ := worker_of_setFrames hy
      simp only [List.getElem?_modify, if_true, Option.map_eq_map, Option.map_eq_some_iff] at hz
      obtain ⟨x, -, rfl⟩ := hz
      rw [e]
    | _ => exact (after.here here y hy).2 (by omega)
  · intro _ ne y hy
    cases ran with
    | signal => omega
    | join free =>
      obtain here | ended := free
      · exact absurd here ne
      · obtain ⟨x, hx, e⟩ := worker_of_setFrames hy
        rw [World.hasEnded, hx] at ended
        rw [e]
        simpa using ended
    | _ => exact after.away (by omega) ne y hy
  · intro _
    cases ran with
    | signal | join => omega
    | forgetChain => exact chain_setFrames ..
    | _ => exact after.chain (by omega)
  · intro _
    cases ran with
    | signal | join | forgetChain => omega
    | forgetFeeAddress => cases t <;> rfl
    | finishShutdown => exact after.fee (by omega)
  · intro _
    cases ran with
    | finishShutdown =>
      rw [connection_setFrames]
      simp [Connection.finishShutdown, vacant, Connection.initial]
    | _ => omega

/-- A shutdown that stops a worker gives up its handle and runs its code. -/
theorem begun (code : w.frames t = .beginShutdown src a :: rest)
    (held : w.connection.worker = some s) (calm : w.connection.stopping = false)
    (step : WorldStep w (.run t) v) :
    v.frames t = shutdownCode s ++ .returning src a (.flag true) :: rest ∧
      v.connection = { w.connection with worker := none, stopping := true } := by
  obtain ⟨f, rest', fs, u, code', ran, rfl, now⟩ := step.ran
  rw [code] at code'
  obtain ⟨rfl, rfl⟩ := List.cons.inj code'
  rw [now, connection_setFrames]
  cases ran with
  | beginShutdown src a r calm held' =>
    obtain rfl := Option.some.inj (held.symm.trans held')
    exact ⟨rfl, rfl⟩
  | beginNothing src a nothing => simp [Connection.beginShutdown, calm, held] at nothing
  | own f s x x' c chain fs isHere hx own => cases own
  | stray f own => cases own

namespace Shutting

/-- A shutdown that stops a worker begins with nothing done. -/
theorem begins (forgets : w.Forgets) (owned : w.Owned) (hs : w.Sound) (serving : w.Serving)
    (code : w.frames t = .beginShutdown src a :: rest) (held : w.connection.worker = some s)
    (calm : ∀ x, t = .worker s → w.workers[s]? = some x → x.writes = false)
    (step : WorldStep w (.run t) v) : v.Shutting t s 0 ∧
      v.frames t = shutdownCode s ++ .returning src a (.flag true) :: rest := by
  obtain ⟨running, going, -⟩ := owned.held s held
  obtain ⟨now, same⟩ := begun code held going step
  have plain : Plain (.beginShutdown src a :: rest) :=
    (code ▸ hs.stacked t).plain_of_head rfl (by simp)
  have old {r : Nat} {y : Worker} (hy : v.workers[r]? = some y) :
      ∃ x, w.workers[r]? = some x ∧ WorkerStep w (.run t) r x y := by
    obtain old | ⟨-, t', cb, rest', here, code', -⟩ := step.cameFrom hy
    · exact old
    · cases here
      rw [code] at code'
      cases code'
  refine ⟨⟨by omega, fun _ => ⟨_, now, .cons _ _ rfl (by simp) plain.tail⟩, ?_, by rw [same], ?_,
    ⟨?_, by omega, by omega, by omega, by omega⟩, ?_⟩, now⟩
  · intro t' finishes
    obtain before | ⟨cb, r, gs, -, -, stops⟩ | ⟨src', a', r, gs, here, -⟩ :=
      Stack.source (step.threadStep t') rfl finishes
    · exact absurd before (owned.calm going t')
    · simp at stops
    · cases here
      exact ⟨rfl, by omega⟩
  · intro r y ne hy
    obtain ⟨x, hx, worker⟩ := old hy
    have other : w.connection.running ≠ some r := by
      rw [running]
      exact fun same => ne (Option.some.inj same).symm
    have inactive : ¬x.IsActive := fun active => other (owned.active r x hx active)
    refine worker.isQuiet_of_inactive (hs.courses r x hx) inactive
      ⟨not_writes_of_inactive (hs.courses r x hx) inactive, fun f hf => ?_⟩
    by_contra concludes
    exact other (forgets.concluding r x f hx hf (by simpa using concludes))
  · rintro rfl y hy
    obtain ⟨x, hx, worker⟩ := old hy
    rw [frames_worker hx] at code
    refine ⟨worker.isQuiet ⟨calm x rfl hx, fun f hf => ?_⟩ (.inr ⟨_, _, code, rfl⟩), by omega⟩
    by_contra concludes
    have alone := ((serving.workers s x hx).alone f hf (by simpa using concludes)).1
    rw [code] at alone
    obtain ⟨rfl, -⟩ := List.cons.inj alone
    exact concludes rfl
  · refine forgets.ordered.step hs step fun t' rest' here code' => ?_
    cases here
    rw [code] at code'
    cases code'

/-- Once the worker was waited for, everybody is quiet. -/
theorem quiet (h : w.Shutting t s k) (hs : w.Sound) (serving : w.Serving) (waited : 1 < k)
    (hx : w.workers[r]? = some x) : x.IsQuiet := by
  by_cases same : r = s
  · subst same
    by_cases here : t = .worker r
    · exact (h.done.here here x hx).1
    · exact quiet_of_ended (hs.courses r x hx) (serving.workers r x hx)
        (h.done.away waited here x hx)
  · exact (h.others r x same hx).2

theorem free (h : w.Shutting t s k) (hs : w.Sound) (serving : w.Serving)
    (code : w.frames t' = .forgetChain :: rest) (hx : w.workers[r]? = some x) :
    x.writes = false := by
  obtain finishes | ⟨q, y, gs, rfl, hy, rfl⟩ := hs.forgetting_cases code
  · -- this is the shutdown itself, and it has waited
    obtain ⟨rfl, left⟩ := h.alone t' (by rw [code]; exact List.mem_cons_of_mem _ finishes)
    obtain ⟨gs, code', -⟩ := h.code left
    have next := (shutdownCode_next left (code.symm.trans code')).2
    have : k = 2 := by simpa using next
    exact (h.quiet hs serving (by omega) hx).1
  · -- a worker that fails is the one that is shut down, and writes nothing
    have fails : .markFailed ∈ y.frames := by
      rw [← frames_worker hy, code]
      simp
    obtain ⟨active, silent⟩ := Forgets.quiet_of_failing hs hy fails
    obtain rfl : q = s := by
      by_contra other
      exact (h.others q y other hy).1 active
    by_cases same : r = q
    · subst same
      rw [hy] at hx
      cases hx
      exact silent
    · exact (h.others r x same hx).2.1

/-- What a shutdown has done stays done. -/
theorem done_step (h : w.Shutting t s k) (hs : w.Sound) (serving : w.Serving)
    (step : WorldStep w m v) (same : v.workers.length = w.workers.length) : v.Done t s k := by
  have cameFrom {y : Worker} (hy : v.workers[s]? = some y) :
      ∃ x, w.workers[s]? = some x ∧ WorkerStep w m s x y := by
    obtain old | ⟨new, -⟩ := step.cameFrom hy
    · exact old
    · have := (List.getElem?_eq_some_iff.mp hy).1
      omega
  constructor
  · rintro here y hy
    obtain ⟨x, hx, worker⟩ := cameFrom hy
    obtain ⟨quiet, stopped⟩ := h.done.here here x hx
    refine ⟨worker.isQuiet quiet ?_, fun some => worker.stopped (stopped some)⟩
    by_cases first : 0 < k
    · exact .inl (stopped first)
    · obtain ⟨rest, code, -⟩ := h.code (by omega)
      obtain rfl : k = 0 := by omega
      rw [here, frames_worker hx] at code
      exact .inr ⟨_, _, code, rfl⟩
  · intro waited ne y hy
    obtain ⟨x, hx, worker⟩ := cameFrom hy
    exact worker.ended (hs.courses s x hx) (h.done.away waited ne x hx)
  · intro forgotten
    exact step.chain_initial (h.done.chain forgotten) fun r x _ hx =>
      (h.quiet hs serving (by omega) hx).1
  · intro forgotten
    refine step.feeAddress_empty (h.done.fee forgotten) fun t' f rest here code => ?_
    by_contra concludes
    have concludes : f.concludes = true := by simpa using concludes
    obtain ⟨r, x, rfl, hx, alone, -⟩ := serving.exists_worker code concludes
    have := (h.quiet hs serving (by omega) hx).2 f (by rw [alone]; simp)
    rw [concludes] at this
    cases this
  · exact fun ended => (step.vacant same h.vacant).2 (h.done.ended ended)

/-- As long as no worker is started, a shutdown goes on or is past. -/
theorem step (h : w.Shutting t s k) (hs : w.Sound) (serving : w.Serving) (step : WorldStep w m v)
    (same : v.workers.length = w.workers.length) : ∃ k', v.Shutting t s k' := by
  have others : ∀ r y, r ≠ s → v.workers[r]? = some y → ¬y.IsActive ∧ y.IsQuiet := by
    intro r y ne hy
    obtain ⟨x, hx, worker⟩ | ⟨new, -⟩ := step.cameFrom hy
    · obtain ⟨inactive, quiet⟩ := h.others r x ne hx
      exact worker.isQuiet_of_inactive (hs.courses r x hx) inactive quiet
    · have := (List.getElem?_eq_some_iff.mp hy).1
      omega
  have vacant := (step.vacant same h.vacant).1
  have alone : ∀ t', .finishShutdown ∈ v.frames t' → t' = t ∧ k < 5 := fun t' finishes =>
    h.alone t' (finishes_source h.vacant (step.threadStep t') finishes)
  have ordered := h.ordered.step hs step fun t' rest _ code r x hx => h.free hs serving code hx
  have done := h.done_step hs serving step same
  by_cases left : k < 5
  · obtain ⟨rest, code, plain⟩ := h.code left
    obtain stays | ⟨now, u, ran, rfl⟩ := shutdown_runs left code step
    · exact ⟨k, h.le, fun _ => ⟨rest, stays, plain⟩, alone, vacant, others, done, ordered⟩
    · refine ⟨k + 1, left, fun _ => ⟨rest, now, plain⟩, fun t' finishes => ?_, vacant, others,
        h.done.next h.vacant ran _ done, ordered⟩
      obtain ⟨rfl, -⟩ := alone t' finishes
      refine ⟨rfl, ?_⟩
      by_contra last
      obtain rfl : k = 4 := by omega
      rw [now] at finishes
      have := plain.stays finishes
      cases this
  · exact ⟨k, h.le, fun more => absurd more left, alone, vacant, others, done, ordered⟩

/-- It does so however long the run is. -/
theorem of_reaches (h : w.Shutting t s k) (hs : w.Sound) (serving : w.Serving)
    (run : w.Reaches v) (same : v.workers.length = w.workers.length) :
    ∃ k', v.Shutting t s k' := by
  have all := run.keeps (P := fun v => v.Sound ∧ v.Serving ∧ w.workers.length ≤ v.workers.length ∧
      (v.workers.length = w.workers.length → ∃ k', v.Shutting t s k'))
    ⟨hs, serving, Nat.le_refl _, fun _ => ⟨k, h⟩⟩
    fun v m u ⟨hs, serving, more, shutting⟩ step => by
      have grows : v.workers.length ≤ u.workers.length := by
        obtain same | ⟨more, -⟩ := step.length_workers <;> omega
      refine ⟨hs.step step, serving.step step, by omega, fun same => ?_⟩
      obtain ⟨k', shutting⟩ := shutting (by omega)
      exact shutting.step hs serving step (by omega)
  exact all.2.2.2 same

end Shutting

end Clearing

/-- What is known and what a shutdown leaves of it. -/
structure Forgotten (w : World) : Prop where
  /-- The node's own height is not above the height that it knows of. -/
  ordered : w.chain.nodeHeight ≤ w.chain.knownHeight
  /-- Nothing is known while the connection is not initialized. -/
  vacant : w.connection.state = .notInitialized → w.overview = ⟨.notInitialized, .initial, ""⟩
  /-- A shutdown that stops a worker returns true. Until a worker is started, the heights stay in
  order, and nothing is known once the call has come to its return. Only a worker that shuts itself
  down in the midst of a refresh may still write. -/
  cleared : ∀ t src a rest s v, w.frames t = .beginShutdown src a :: rest →
    w.connection.worker = some s →
    (∀ x, t = .worker s → w.workers[s]? = some x → x.writes = false) →
    w.step (.run t) = some v →
    v.frames t = shutdownCode s ++ .returning src a (.flag true) :: rest ∧
    ∀ u, v.Reaches u → u.workers.length = v.workers.length →
      u.chain.nodeHeight ≤ u.chain.knownHeight ∧
      (.finishShutdown ∉ u.frames t → u.overview = ⟨.notInitialized, .initial, ""⟩)

/-- In a run in which every worker that shuts itself down has settled before, what is known is in
order, and a shutdown forgets it. -/
theorem forgotten_of_orderly {w₀ w : World} (first : w₀.Untouched)
    (run : ReachesBy Orderly w₀ w) : w.Forgotten := by
  have sound := Sound.of_reaches first run.reaches
  have serving := Serving.of_reaches first run.reaches
  have owned := Owned.of_reaches first run
  have forgets := Forgets.of_reaches first run
  refine ⟨forgets.ordered.le, fun state => ?_, ?_⟩
  · rw [overview, state, forgets.chain state, forgets.fee (by rw [state]; simp)]
  · intro t src a rest s v code held calm now
    have step := worldStep_of_step now
    obtain ⟨shutting, code'⟩ := Shutting.begins forgets owned sound serving code held calm step
    refine ⟨code', fun u later same => ?_⟩
    obtain ⟨k, shutting⟩ :=
      shutting.of_reaches (sound.step step) (serving.step step) later same
    refine ⟨shutting.ordered.le, fun past => ?_⟩
    have ended : k = 5 := by
      by_contra more
      have left : k < 5 := by have := shutting.le; omega
      obtain ⟨gs, code, -⟩ := shutting.code left
      apply past
      rw [code]
      match k, left with
      | 0, _ | 1, _ | 2, _ | 3, _ | 4, _ => simp [shutdownCode]
    subst ended
    rw [overview, shutting.done.ended (by omega), shutting.done.chain (by omega),
      shutting.done.fee (by omega)]
    rfl

/-! ### Shutting down where an observer is told of something -/

/-- A world with one caller and an observer that shuts down when it is told of its connectivity or
of the height six. -/
def timid : World := { initial 1 .standard with
  reaction := fun _ n => match n with
    | .connected true => [.shutdown]
    | .knownHeight h => if h = 6 then [.shutdown] else []
    | _ => []
  kept := [0] }

/-- The call that a thread has to run next is a shutdown by the observer. -/
def isShuttingNext (w : World) (t : Thread) : Bool :=
  match w.frames t with
  | .beginShutdown (.observer 0) .shutdown :: _ => true
  | _ => false

/-- The observer is registered, a caller initializes, and the first refresh gets an answer. -/
def untilConnected : List Move :=
  .call 0 (.register .connectivity 0) :: List.replicate 3 (.run (.caller 0)) ++
    .call 0 (.init "first" []) :: List.replicate 3 (.run (.caller 0)) ++
      .run (.worker 0) :: Node.replied (answered infoBody) 10

set_option maxRecDepth 20000 in
/-- In the midst of the first refresh the observer is told of its connectivity and shuts down. -/
theorem forgotten_untilConnected : ∃ w x, ReachesBy Orderly timid w ∧
    w.isShuttingNext (.worker 0) = true ∧ w.workers[0]? = some x ∧ x.stands = .initializing ∧
      x.writes = false ∧ w.chain.nodeHeight = 5 ∧ w.Forgotten := by
  have found : (timid.checkedSteps isOrderly untilConnected).any (fun w =>
      w.isShuttingNext (.worker 0) && (w.workers[0]?).any (fun x =>
        x.stands = .initializing && x.writes = false) && w.chain.nodeHeight = 5) = true := by
    decide +kernel
  obtain ⟨w, hw, found⟩ := (Option.any_eq_true ..).mp found
  simp only [Bool.and_eq_true, decide_eq_true_eq, Option.any_eq_true] at found
  obtain ⟨⟨next, x, hx, opening, quiet⟩, height⟩ := found
  have run := ReachesBy.of_checkedSteps (fun _ _ h => orderly_of_isOrderly h) hw
  exact ⟨w, x, run, next, hx, opening, quiet, height,
    forgotten_of_orderly ⟨1, .standard, true, _, _, rfl⟩ run⟩

/-- The answer of a node with another height: the digit 5 stands nowhere else in it. -/
def higherBody : List UInt8 := infoBody.map fun b => if b = 53 then 54 else b

/-- The connection comes about, the observer is registered, and the second refresh finds another
height. -/
def untilHigher : List Move :=
  .call 0 (.init "first" []) :: List.replicate 5 (.run (.caller 0)) ++
    .run (.worker 0) :: Node.replied (answered infoBody) 9 ++
      Node.replied (answered headerBody) 4 ++ Node.replied (answered (Node.nothingBody 1)) 6 ++
        .call 0 (.register .node 0) :: List.replicate 3 (.run (.caller 0)) ++
          .turn 0 .wake :: Node.replied (answered higherBody) 16

/-- The observer was told that it has shut down. -/
def tellsShutdown : Entry → Bool
  | .returned (.observer 0) .shutdown (.flag true) => true
  | _ => false

set_option maxRecDepth 20000 in
/-- An observer that shuts down where a refresh tells it of a height does not make what is known be
forgotten: after its call has returned true, the refresh raises the node's own height, which is then
above the height that the node knows of. -/
theorem exists_not_forgotten : ∃ w₀ w, Untouched w₀ ∧ w₀.Reaches w ∧ w.connection = .initial ∧
    (∃ e ∈ w.log, tellsShutdown e = true) ∧ w.workers.length = 1 ∧ w.chain.nodeHeight = 6 ∧
      w.chain.knownHeight = 0 ∧ ¬w.Forgotten := by
  have found : (timid.steps untilHigher).any (fun w => w.connection = .initial &&
      w.log.any tellsShutdown && w.workers.length = 1 && w.chain.nodeHeight = 6 &&
        w.chain.knownHeight = 0) = true := by decide +kernel
  obtain ⟨w, hw, found⟩ := (Option.any_eq_true ..).mp found
  simp only [Bool.and_eq_true, decide_eq_true_eq, List.any_eq_true] at found
  obtain ⟨⟨⟨⟨connection, told⟩, alone⟩, node⟩, known⟩ := found
  refine ⟨timid, w, ⟨1, .standard, true, _, _, rfl⟩, reaches_steps hw, connection, told, alone,
    node, known, fun forgotten => ?_⟩
  have le := forgotten.ordered
  rw [node, known] at le
  exact absurd le (by decide)

end World

end RemoteNode.Session
