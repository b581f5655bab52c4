import RemoteNode.Proofs.Session.Standing

/-! Who owns the connection. The worker whose handle is held stands for the state of the connection;
no other worker may change anything, except the one that a shutdown under way is waiting for. This
holds of runs in which a worker that shuts itself down has settled before. -/

namespace RemoteNode.Session

namespace World

/-- A worker does not shut itself down before it has settled. -/
def Orderly (w : World) (m : Move) : Prop :=
  ∀ r src a rest x, m = .run (.worker r) → w.frames (.worker r) = .beginShutdown src a :: rest →
    w.connection.worker = some r → w.workers[r]? = some x → x.IsSettled

/-- Tells whether a move is orderly. -/
def isOrderly (w : World) : Move → Bool
  | .run (.worker r) =>
    match w.frames (.worker r), w.workers[r]? with
    | .beginShutdown _ _ :: _, some x =>
      w.connection.worker != some r || (x.stands != .initializing && !x.writes)
    | _, _ => true
  | _ => true

theorem orderly_of_isOrderly {w : World} {m : Move} (h : w.isOrderly m = true) :
    w.Orderly m := by
  rintro r src a rest x rfl code held hx
  rw [isOrderly, code, hx] at h
  simpa [held, Worker.IsSettled] using h

/-- A thread stops a worker and has come so far. -/
structure Halting (w : World) (t : Thread) (r k : Nat) : Prop where
  left : k < 5
  code : ∃ rest, w.frames t = (shutdownCode r).drop k ++ rest ∧ Plain rest
  stopped : 0 < k → ∀ x, w.workers[r]? = some x → x.stopped = true
  ended : 1 < k → t ≠ .worker r → ∀ x, w.workers[r]? = some x → x.phase = .ended

/-- A thread is shutting down a worker and has come so far. -/
structure Closing (w : World) (t : Thread) (r k : Nat) : Prop where
  left : k < 5
  code : ∃ rest, w.frames t = (shutdownCode r).drop k ++ rest ∧ Plain rest
  settled : t = .worker r → ∀ x, w.workers[r]? = some x → x.IsSettled
  stopped : 0 < k → ∀ x, w.workers[r]? = some x → x.stopped = true
  ended : 1 < k → t ≠ .worker r → ∀ x, w.workers[r]? = some x → x.phase = .ended

/-- The connection is owned by at most one worker, and follows that worker. -/
structure Owned (w : World) : Prop where
  running : ∀ s, w.connection.running = some s → s + 1 = w.workers.length ∧
    (w.connection.worker = some s ∨ w.connection.stopping = true)
  held : ∀ s, w.connection.worker = some s → w.connection.running = some s ∧
    w.connection.stopping = false ∧
      ∃ x, w.workers[s]? = some x ∧ x.stopped = false ∧ x.stands = w.connection.state
  vacant : w.connection.worker = none → w.connection.stopping = false → w.connection = .initial
  active : ∀ s x, w.workers[s]? = some x → x.IsActive → w.connection.running = some s
  signalled : ∀ t r, .signal r ∈ w.frames t →
    r < w.workers.length ∧ w.connection.worker ≠ some r
  closing : w.connection.stopping = true → ∃ t r k, w.Closing t r k ∧
    w.connection.running = some r ∧ w.connection.worker = none ∧
      ∀ t', .finishShutdown ∈ w.frames t' → t' = t
  calm : w.connection.stopping = false → ∀ t, .finishShutdown ∉ w.frames t

end World

section Runs
variable {w u v : World} {m : Move} {t : Thread} {f : Frame} {fs rest : List Frame} {s r k : Nat}
  {x y : Worker}

/-- Code that is no part of its course leaves a settled worker settled. -/
theorem WorkerStep.isSettled_of_foreign (h : x.IsSettled) (step : WorkerStep w m s x y)
    (code : x.frames = f :: rest) (foreign : f.isOwn = false) : y.IsSettled := by
  obtain ⟨phase, own⟩ := step.course_eq code foreign
  rw [Worker.IsSettled, Worker.stands, Worker.writes, phase, own]
  exact h

theorem WorkerStep.ended (h : x.OnCourse) (step : WorkerStep w m s x y) (ended : x.phase = .ended) :
    y.phase = .ended := by
  have own := h.ownCode_of_ended ended
  cases step with
  | others y away touched => rw [touched.phase, ended]
  | foreign f rest fs u y here hf step notOwn touched => exact touched.phase.trans ended
  | own f rest fs x' c chain here hf step => rw [hf, ownCode_own step.isOwn] at own; cases own
  | markFailed | reply => exact ended
  | leave => rfl
  | turn k x' es here idle stays step => exact absurd ended stays

namespace World

theorem Closing.halting (h : w.Closing t r k) : w.Halting t r k :=
  ⟨h.left, h.code, h.stopped, h.ended⟩

namespace Halting

theorem head (h : w.Halting t r k) : ∃ f rest, w.frames t = f :: rest := by
  obtain ⟨rest, code, -⟩ := h.code
  rw [code]
  match k, h.left with
  | 0, _ | 1, _ | 2, _ | 3, _ | 4, _ => exact ⟨_, _, rfl⟩

theorem foreign (h : w.Halting t r k) (code : w.frames t = f :: rest) : f.isOwn = false := by
  obtain ⟨gs, code', -⟩ := h.code
  obtain ⟨-, next⟩ := shutdownCode_next h.left (code.symm.trans code')
  obtain ⟨-, rfl⟩ | ⟨-, rfl⟩ | ⟨-, rfl⟩ | ⟨-, rfl⟩ | ⟨-, rfl⟩ := next <;> rfl

end Halting

/-- A thread that is halting a worker stays where it is, or runs what is next. -/
theorem Halting.step (hs : w.Sound) (h : w.Halting t r k) (there : r < w.workers.length)
    (step : WorldStep w m v) : m = .run t ∧ k = 4 ∨ m = .run t ∧ k < 4 ∧ v.Halting t r (k + 1) ∨
      m ≠ .run t ∧ v.Halting t r k := by
  obtain ⟨x, hx⟩ : ∃ x, w.workers[r]? = some x := ⟨_, List.getElem?_eq_getElem there⟩
  obtain ⟨y, hy, worker⟩ := step.workerStep hx
  obtain ⟨rest, code, plain⟩ := h.code
  have left := h.left
  -- the head of what is left is part of the shutdown, so the thread does nothing else
  obtain ⟨f, gs, hf⟩ := h.head
  obtain ⟨hgs, next⟩ := shutdownCode_next left (hf.symm.trans code)
  have stopped : x.stopped = true → ∀ y, v.workers[r]? = some y → y.stopped = true := by
    intro told z hz
    rw [hy] at hz
    cases hz
    exact worker.stopped told
  have ended : x.phase = .ended → ∀ y, v.workers[r]? = some y → y.phase = .ended := by
    intro finished z hz
    rw [hy] at hz
    cases hz
    exact worker.ended (hs.courses r x hx) finished
  by_cases here : m = .run t
  · subst here
    obtain ⟨f', gs', fs, u, hf', step', rfl, now⟩ := step.ran
    rw [hf] at hf'
    obtain ⟨rfl, rfl⟩ := List.cons.inj hf'
    have none : fs = [] := Stack.pushed_of_shutdown left (hf.symm.trans code) step'
    by_cases last : k = 4
    · exact .inl ⟨rfl, last⟩
    · refine .inr (.inl
        ⟨rfl, by omega, by omega, ⟨rest, by rw [now, none, hgs]; rfl, plain⟩, ?_, ?_⟩)
      · intro _
        by_cases first : k = 0
        · obtain ⟨-, rfl⟩ | ⟨one, -⟩ | ⟨two, -⟩ | ⟨three, -⟩ | ⟨four, -⟩ := next
          · intro z hz
            obtain ⟨z', hz', e⟩ := worker_of_setFrames hz
            rw [e]
            cases step' with
            | signal s =>
              simp only [List.getElem?_modify, if_true, hx] at hz'
              cases hz'
              rfl
            | own f s x x' c chain fs isHere hx h => cases h
            | stray f own => cases own
          all_goals omega
        · exact stopped (h.stopped (by omega) x hx)
      · intro some ne
        by_cases second : k = 1
        · obtain ⟨zero, -⟩ | ⟨-, rfl⟩ | ⟨two, -⟩ | ⟨three, -⟩ | ⟨four, -⟩ := next
          · omega
          · cases step' with
            | join s free =>
              obtain here | finished := free
              · exact absurd here ne
              · rw [World.hasEnded, hx] at finished
                exact ended (by simpa using finished)
            | own f s x x' c chain fs isHere hx h => cases h
            | stray f own => cases own
          all_goals omega
        · exact ended (h.ended (by omega) ne x hx)
  · refine .inr (.inr ⟨here, left, ⟨rest, ?_, plain⟩, fun some => stopped (h.stopped some x hx),
      fun some ne => ended (h.ended some ne x hx)⟩)
    have thread := step.threadStep t
    rw [hf] at thread
    generalize v.frames t = code' at thread
    cases thread with
    | same => exact hf.symm.trans code
    | run f gs fs u here' => exact absurd here' here

theorem Closing.step (hs : w.Sound) (h : w.Closing t r k) (there : r < w.workers.length)
    (step : WorldStep w m v) : (k = 4 ∧ m = .run t) ∨ ∃ k', v.Closing t r k' := by
  have settled : t = .worker r → ∀ y, v.workers[r]? = some y → y.IsSettled := by
    intro ht y hy
    obtain ⟨x, hx⟩ : ∃ x, w.workers[r]? = some x := ⟨_, List.getElem?_eq_getElem there⟩
    obtain ⟨y', hy', worker⟩ := step.workerStep hx
    rw [hy] at hy'
    cases hy'
    obtain ⟨f, gs, hf⟩ := h.halting.head
    have foreign : f.isOwn = false := h.halting.foreign hf
    rw [ht, frames_worker hx] at hf
    exact worker.isSettled_of_foreign (h.settled ht x hx) hf foreign
  have closing {k' : Nat} (halting : v.Halting t r k') : v.Closing t r k' :=
    ⟨halting.left, halting.code, settled, halting.stopped, halting.ended⟩
  obtain ⟨here, last⟩ | ⟨-, -, next⟩ | ⟨-, still⟩ := h.halting.step hs there step
  · exact .inl ⟨last, here⟩
  · exact .inr ⟨_, closing next⟩
  · exact .inr ⟨_, closing still⟩

namespace Owned

/-- A frame that leaves the worker whose handle is held as it is. -/
def Calm (w : World) (f : Frame) : Prop :=
  f ≠ .markFailed ∧
    (f = .markInitialized →
      ¬(w.connection.stopping = false ∧ w.connection.state = .initializing)) ∧
    ∀ cb, f = .start cb →
      ¬(w.connection.stopping = false ∧ w.connection.state = .notInitialized)

theorem held_step (h : w.Owned) (hs : w.Sound) (step : WorldStep w m v)
    (calm : ∀ t f rest, m = .run t → w.frames t = f :: rest → Calm w f)
    (held : w.connection.worker = some s) (hy : v.workers[s]? = some y) :
    y.stopped = false ∧ y.stands = w.connection.state := by
  obtain ⟨running, going, x, hx, stopped, stands⟩ := h.held s held
  obtain ⟨y', hy', worker⟩ := step.workerStep hx
  rw [hy] at hy'
  cases hy'
  constructor
  · obtain same | ⟨t, f, rest, rfl, code, rfl | ⟨⟨cb, rfl⟩, calm', state⟩⟩ := step.stopped hx hy
    · rw [same, stopped]
    · exact absurd held (h.signalled t s (by rw [code]; simp)).2
    · exact absurd ⟨calm', state⟩ ((calm t _ rest rfl code).2.2 cb rfl)
  · have ranHere {f : Frame} {rest : List Frame} (here : m = .run (.worker s))
        (code : x.frames = f :: rest) : Calm w f :=
      calm _ f rest here (by rw [frames_worker hx, code])
    cases worker.standStep (hs.courses s x hx) with
    | keep same stays => rw [same, stands]
    | mark rest here code before calm' state after =>
      exact absurd ⟨calm', state⟩ ((ranHere here code).2.1 rfl)
    | refuse rest here code before busy after =>
      exact absurd ⟨going, stands ▸ before⟩ busy
    | fail rest here code before after => exact absurd rfl (ranHere here code).1
    | left rest here code stopped' after =>
      rw [stopped] at stopped'
      cases stopped'

/-- A worker that may change something might have before. -/
theorem active_step (h : w.Owned) (hs : w.Sound) (step : WorldStep w m v)
    (old : v.workers.length = w.workers.length) (hy : v.workers[s]? = some y)
    (active : y.IsActive) : w.connection.running = some s := by
  obtain ⟨x, hx, worker⟩ | ⟨rfl, -⟩ := step.cameFrom hy
  · exact h.active s x hx (worker.isActive (hs.courses s x hx) active)
  · have := (List.getElem?_eq_some_iff.mp hy).1
    omega

theorem keep (h : w.Owned) (hs : w.Sound) (step : WorldStep w m v)
    (same : v.connection = w.connection) (old : v.workers.length = w.workers.length)
    (held : ∀ s y, w.connection.worker = some s → v.workers[s]? = some y →
      y.stopped = false ∧ y.stands = w.connection.state)
    (stops : ∀ t f, f.stops = true → f ∈ v.frames t → f ∈ w.frames t)
    (unfinished : ∀ t r, w.Closing t r 4 → m ≠ .run t) : v.Owned := by
  constructor
  · intro s
    rw [same, old]
    exact h.running s
  · intro s hs
    rw [same] at hs ⊢
    obtain ⟨running, going, x, hx, -⟩ := h.held s hs
    obtain ⟨y, hy, -⟩ := step.workerStep hx
    exact ⟨running, going, y, hy, held s y hs hy⟩
  · rw [same]
    exact h.vacant
  · intro s y hy active
    rw [same]
    exact h.active_step hs step old hy active
  · intro t r hr
    rw [same, old]
    exact h.signalled t r (stops t _ rfl hr)
  · intro stopping
    rw [same] at stopping ⊢
    obtain ⟨t, r, k, closing, running, vacant, only⟩ := h.closing stopping
    have there := (h.running r running).1
    obtain ⟨rfl, here⟩ | ⟨k', closing⟩ := closing.step hs (by omega) step
    · exact absurd here (unfinished t r closing)
    · exact ⟨t, r, k', closing, running, vacant, fun t' ht' => only t' (stops t' _ rfl ht')⟩
  · intro going t ht
    rw [same] at going
    exact h.calm going t (stops t _ rfl ht)

/-- While nothing is shut down and the connection is not initialized, no worker may change
anything. -/
theorem inactive (h : w.Owned) (calm : w.connection.stopping = false)
    (state : w.connection.state = .notInitialized) (hx : w.workers[s]? = some x) :
    ¬x.IsActive := by
  intro active
  have running := h.active s x hx active
  obtain held | stopping := (h.running s running).2
  · obtain ⟨-, -, x', hx', -, stands⟩ := h.held s held
    rw [hx] at hx'
    cases hx'
    rw [state] at stands
    obtain opening | ⟨initialized, -⟩ := active
    · rw [stands] at opening
      cases opening
    · rw [stands] at initialized
      cases initialized
  · rw [calm] at stopping
    cases stopping

/-- The worker whose handle is held sets the state of the connection. -/
theorem restate (h : w.Owned) (hs : w.Sound) (step : WorldStep w m v)
    (held : w.connection.worker = some s) (state : State)
    (same : v.connection = { w.connection with state := state })
    (old : v.workers.length = w.workers.length)
    (stands : ∀ y, v.workers[s]? = some y → y.stopped = false ∧ y.stands = state)
    (stops : ∀ t f, f.stops = true → f ∈ v.frames t → f ∈ w.frames t) : v.Owned := by
  obtain ⟨running, calm, x, hx, -⟩ := h.held s held
  obtain ⟨y, hy, -⟩ := step.workerStep hx
  constructor
  · intro r
    rw [same, old]
    exact h.running r
  · intro r hr
    rw [same] at hr ⊢
    have : r = s := Option.some.inj (hr.symm.trans held)
    subst this
    exact ⟨running, calm, y, hy, stands y hy⟩
  · intro vacant
    rw [same, held] at vacant
    cases vacant
  · intro r z hz active
    rw [same]
    exact h.active_step hs step old hz active
  · intro t r hr
    rw [same, old]
    exact h.signalled t r (stops t _ rfl hr)
  · intro stopping
    rw [same, calm] at stopping
    cases stopping
  · intro _ t ht
    exact h.calm calm t (stops t _ rfl ht)

theorem stops_of_pushed (step : WorldStep w (.run t) v) (code : w.frames t = f :: rest)
    (now : v.frames t = fs ++ rest) (none : ∀ g ∈ fs, g.stops = false) :
    ∀ t' g, g.stops = true → g ∈ v.frames t' → g ∈ w.frames t' := by
  intro t' g hg hv
  by_cases ht : t' = t
  · subst ht
    rw [now] at hv
    rcases List.mem_append.mp hv with hv | hv
    · rw [none g hv] at hg
      cases hg
    · rw [code]
      exact List.mem_cons_of_mem _ hv
  · have thread := step.threadStep t'
    generalize w.frames t' = gs, v.frames t' = gs' at thread hv ⊢
    cases thread with
    | same => exact hv
    | run g' rest' fs' u' here => exact absurd (by simpa using here.symm) ht
    | call n a here call => cases call
    | release n here release => cases release
    | turn s k x x' es here turn => cases turn
    | started r cb rest' here =>
      rw [List.mem_singleton.mp hv] at hg
      cases hg

theorem stops_of_still (step : WorldStep w m v) (still : ∀ t, m ≠ .run t) :
    ∀ t g, g.stops = true → g ∈ v.frames t → g ∈ w.frames t := by
  intro t g hg hv
  obtain hw | ⟨cb, s, rest, here, -⟩ | ⟨src, a, s, rest, here, -⟩ :=
    Stack.source (step.threadStep t) hg hv
  · exact hw
  · exact absurd here (still t)
  · exact absurd here (still t)

theorem start (h : w.Owned) (hs : w.Sound) (step : WorldStep w (.run t) v)
    (calm : w.connection.stopping = false) (state : w.connection.state = .notInitialized)
    (now : v.connection = ⟨.initializing, false, some w.workers.length, some w.workers.length⟩)
    (more : v.workers.length = w.workers.length + 1)
    (stops : ∀ t g, g.stops = true → g ∈ v.frames t → g ∈ w.frames t) : v.Owned := by
  obtain ⟨y, hy⟩ : ∃ y, v.workers[w.workers.length]? = some y :=
    ⟨_, List.getElem?_eq_getElem (by omega)⟩
  have new : ∃ cb, y = Worker.new cb := by
    obtain ⟨x, hx, -⟩ | ⟨-, t, cb, rest, -, -, rfl⟩ := step.cameFrom hy
    · have := (List.getElem?_eq_some_iff.mp hx).1
      omega
    · exact ⟨cb, rfl⟩
  obtain ⟨cb', rfl⟩ := new
  constructor
  · intro s running
    rw [now] at running ⊢
    cases running
    exact ⟨more.symm, .inl rfl⟩
  · intro s held
    rw [now] at held ⊢
    cases held
    exact ⟨rfl, rfl, _, hy, rfl, rfl⟩
  · intro vacant
    rw [now] at vacant
    cases vacant
  · intro s z hz active
    rw [now]
    obtain ⟨x, hx, worker⟩ | ⟨rfl, -⟩ := step.cameFrom hz
    · exact absurd (worker.isActive (hs.courses s x hx) active) (h.inactive calm state hx)
    · rfl
  · intro t r hr
    have there := (h.signalled t r (stops t _ rfl hr)).1
    rw [now]
    refine ⟨by omega, fun same => ?_⟩
    have : w.workers.length = r := Option.some.inj same
    omega
  · intro stopping
    rw [now] at stopping
    cases stopping
  · intro _ t ht
    exact h.calm calm t (stops t _ rfl ht)

theorem takeStale (fs : List Frame) (h : w.Owned) (hs : w.Sound) (step : WorldStep w (.run t) v)
    (code : w.frames t = f :: rest) (calm : w.connection.stopping = false)
    (state : w.connection.state = .notInitialized) (held : w.connection.worker = some s)
    (pushed : v.frames t = [.signal s, .join s] ++ fs) (plain : ∀ g ∈ fs, g.stops = true → g ∈ rest)
    (now : v.connection = .initial) (old : v.workers.length = w.workers.length) : v.Owned := by
  have there := (h.running s (h.held s held).1).1
  -- the only code that is new and stops a worker is for the one that was held
  have stops : ∀ t' g, g.stops = true → g ∈ v.frames t' →
      g ∈ w.frames t' ∨ g = .signal s ∨ g = .join s := by
    intro t' g hg hv
    by_cases ht : t' = t
    · subst ht
      rw [pushed] at hv
      simp only [List.cons_append, List.nil_append, List.mem_cons] at hv
      obtain rfl | rfl | hv := hv
      · exact .inr (.inl rfl)
      · exact .inr (.inr rfl)
      · rw [code]
        exact .inl (List.mem_cons_of_mem _ (plain g hv hg))
    · obtain hw | ⟨cb, s, rest, here, -⟩ | ⟨src, a, s, rest, here, -⟩ :=
        Stack.source (step.threadStep t') hg hv
      · exact .inl hw
      · exact absurd (by simpa using here.symm) ht
      · exact absurd (by simpa using here.symm) ht
  constructor
  · intro r running
    rw [now] at running
    cases running
  · intro r held
    rw [now] at held
    cases held
  · intro _ _
    exact now
  · intro r y hy active
    obtain ⟨x, hx, worker⟩ | ⟨rfl, -⟩ := step.cameFrom hy
    · exact absurd (worker.isActive (hs.courses r x hx) active) (h.inactive calm state hx)
    · have := (List.getElem?_eq_some_iff.mp hy).1
      omega
  · intro t' r hr
    rw [now, old]
    obtain before | same | join := stops t' _ rfl hr
    · exact ⟨(h.signalled t' r before).1, by simp [Connection.initial]⟩
    · cases same
      exact ⟨by omega, by simp [Connection.initial]⟩
    · cases join
  · intro stopping
    rw [now] at stopping
    cases stopping
  · intro _ t' ht
    obtain before | same | join := stops t' _ rfl ht
    · exact h.calm calm t' before
    · cases same
    · cases join

theorem beginShutdown (h : w.Owned) (hs : w.Sound) (ok : w.Orderly (.run t))
    (step : WorldStep w (.run t) v) {src : Source} {a : Act}
    (code : w.frames t = .beginShutdown src a :: rest) (calm : w.connection.stopping = false)
    (held : w.connection.worker = some s)
    (pushed : v.frames t = shutdownCode s ++ (.returning src a (.flag true) :: rest))
    (now : v.connection = { w.connection with worker := none, stopping := true })
    (old : v.workers.length = w.workers.length) : v.Owned := by
  obtain ⟨running, -, x, hx, -⟩ := h.held s held
  have there := (h.running s running).1
  have plain : Plain (.returning src a (.flag true) :: rest) := by
    have stack := hs.stacked t
    rw [code] at stack
    refine .cons _ _ rfl (by simp) ?_
    generalize hg : Frame.beginShutdown src a :: rest = gs at stack
    cases stack with
    | plain gs plain => exact (hg ▸ plain).tail
    | stale | staleJoin => cases hg
    | closing r k gs left plain =>
      have next := (shutdownCode_next left hg).2
      simp at next
  have elsewhere : ∀ t' g, t' ≠ t → g.stops = true → g ∈ v.frames t' → g ∈ w.frames t' := by
    intro t' g ht hg hv
    obtain hw | ⟨cb, s, rest, here, -⟩ | ⟨src, a, s, rest, here, -⟩ :=
      Stack.source (step.threadStep t') hg hv
    · exact hw
    · exact absurd (by simpa using here.symm) ht
    · exact absurd (by simpa using here.symm) ht
  constructor
  · intro r hr
    rw [now] at hr ⊢
    rw [old]
    exact ⟨(h.running r hr).1, .inr rfl⟩
  · intro r hr
    rw [now] at hr
    cases hr
  · intro _ going
    rw [now] at going
    cases going
  · intro r y hy active
    rw [now]
    exact h.active_step hs step old hy active
  · intro t' r hr
    rw [now, old]
    refine ⟨?_, by simp⟩
    by_cases ht : t' = t
    · subst ht
      rw [pushed] at hr
      rcases List.mem_append.mp hr with hr | hr
      · simp only [shutdownCode, List.mem_cons, Frame.signal.injEq, reduceCtorEq,
          List.not_mem_nil, or_false] at hr
        omega
      · exact absurd (plain.stays hr) (by simp [Frame.stops])
    · exact (h.signalled t' r (elsewhere t' _ ht rfl hr)).1
  · intro _
    refine ⟨t, s, 0, ⟨by omega, ⟨_, pushed, plain⟩, ?_, by omega, by omega⟩, ?_, ?_, ?_⟩
    · rintro rfl y hy
      obtain ⟨y', hy', worker⟩ := step.workerStep hx
      rw [hy] at hy'
      cases hy'
      have settled := ok s src a rest x rfl code held hx
      rw [frames_worker hx] at code
      exact worker.isSettled_of_foreign settled code rfl
    · rw [now]
      exact running
    · rw [now]
    · intro t' ht'
      by_contra ht
      exact h.calm calm t' (elsewhere t' _ ht rfl ht')
  · intro going
    rw [now] at going
    cases going

theorem finishShutdown (h : w.Owned) (hs : w.Sound) (step : WorldStep w (.run t) v)
    (code : w.frames t = .finishShutdown :: rest) (pushed : v.frames t = rest)
    (now : v.connection = w.connection.finishShutdown)
    (old : v.workers.length = w.workers.length)
    (stops : ∀ t' g, g.stops = true → g ∈ v.frames t' → g ∈ w.frames t') : v.Owned := by
  have stopping : w.connection.stopping = true := by
    by_contra calm
    exact h.calm (by simpa using calm) t (by rw [code]; simp)
  obtain ⟨t', r, k, closing, running, vacant, only⟩ := h.closing stopping
  have : t = t' := only t (by rw [code]; simp)
  subst this
  obtain ⟨gs, hgs, plain⟩ := closing.code
  obtain ⟨hrest, next⟩ := shutdownCode_next closing.left (code.symm.trans hgs)
  have last : k = 4 := by simpa using next
  subst last
  have now : v.connection = .initial := by rw [now, Connection.finishShutdown, vacant]; rfl
  constructor
  · intro s hs
    rw [now] at hs
    cases hs
  · intro s hs
    rw [now] at hs
    cases hs
  · intro _ _
    exact now
  · intro s y hy active
    exfalso
    obtain ⟨x, hx, worker⟩ | ⟨rfl, -⟩ := step.cameFrom hy
    · have active := worker.isActive (hs.courses s x hx) active
      have : r = s := Option.some.inj (running.symm.trans (h.active s x hx active))
      subst this
      by_cases here : t = .worker r
      · obtain ⟨decided, quiet⟩ := closing.settled here x hx
        have stopped := closing.stopped (by omega) x hx
        obtain opening | ⟨-, going | writes⟩ := active
        · exact decided opening
        · simp [stopped] at going
        · simp [quiet] at writes
      · have ended := closing.ended (by omega) here x hx
        have stands : x.stands = .notInitialized := by rw [Worker.stands, ended]; rfl
        rw [Worker.IsActive, stands] at active
        simp at active
    · have := (List.getElem?_eq_some_iff.mp hy).1
      omega
  · intro t' s hs
    rw [now, old]
    exact ⟨(h.signalled t' s (stops t' _ rfl hs)).1, by simp [Connection.initial]⟩
  · intro stopping
    rw [now] at stopping
    cases stopping
  · intro _ t' ht'
    have : t' = t := only t' (stops t' _ rfl ht')
    subst this
    rw [pushed, hrest] at ht'
    exact absurd (plain.stays ht') (by simp [Frame.stops])

/-- A worker that may change something is the one that runs; its handle is held, or it is being shut
down. -/
theorem active_cases (h : w.Owned) (hx : w.workers[s]? = some x) (active : x.IsActive) :
    w.connection.worker = some s ∧ w.connection.stopping = false ∧ x.stopped = false ∧
        x.stands = w.connection.state ∨
      w.connection.stopping = true ∧ w.connection.worker = none := by
  obtain held | stopping := (h.running s (h.active s x hx active)).2
  · obtain ⟨-, calm, x', hx', going, stands⟩ := h.held s held
    rw [hx] at hx'
    cases hx'
    exact .inl ⟨held, calm, going, stands⟩
  · obtain ⟨-, -, -, -, -, vacant, -⟩ := h.closing stopping
    exact .inr ⟨stopping, vacant⟩

/-- A shutdown that has only its end left runs that next. -/
theorem finish_of_closing (closing : w.Closing t r 4) (code : w.frames t = f :: rest) :
    f = .finishShutdown := by
  obtain ⟨gs, code', -⟩ := closing.code
  simpa using (shutdownCode_next closing.left (code.symm.trans code')).2

theorem run_calm (h : w.Owned) (hs : w.Sound) (step : WorldStep w (.run t) v)
    (code : w.frames t = f :: rest) (now : v.frames t = fs ++ rest)
    (same : v.connection = w.connection) (old : v.workers.length = w.workers.length)
    (calm : Calm w f) (none : ∀ g ∈ fs, g.stops = false) (unfinished : f ≠ .finishShutdown) :
    v.Owned := by
  refine h.keep hs step same old (fun s y held hy => ?_) (stops_of_pushed step code now none) ?_
  · refine h.held_step hs step ?_ held hy
    intro t' f' rest' here code'
    cases here
    rw [code] at code'
    cases code'
    exact calm
  · rintro t' r closing here
    cases here
    exact unfinished (finish_of_closing closing code)

/-- Nobody stops a worker while it runs code of its own course. -/
theorem going_of_own (step : WorldStep w (.run (.worker s)) v) (hx : w.workers[s]? = some x)
    (hy : v.workers[s]? = some y) (code : w.frames (.worker s) = f :: rest) (own : f.isOwn = true)
    (going : x.stopped = false) : y.stopped = false := by
  obtain same | ⟨t, g, gs, here, code', rfl | ⟨⟨cb, rfl⟩, -⟩⟩ := step.stopped hx hy
  · rw [same, going]
  all_goals
    cases here
    rw [code] at code'
    cases code'
    cases own

theorem markFailed (h : w.Owned) (hs : w.Sound) (step : WorldStep w (.run (.worker s)) v)
    (hx : w.workers[s]? = some x) (code : x.frames = .markFailed :: rest)
    (now : v.frames (.worker s) = [] ++ rest) (conn : v.connection = w.connection.markFailed)
    (length : v.workers.length = w.workers.length) : v.Owned := by
  have runs : w.frames (.worker s) = .markFailed :: rest := by rw [frames_worker hx, code]
  have stops := stops_of_pushed step runs now (by simp)
  obtain ⟨y, hy, worker⟩ := step.workerStep hx
  cases worker.standStep (hs.courses s x hx) with
  | keep same stays => exact absurd rfl (stays _ rest rfl code).2
  | mark rest' here code' | refuse rest' here code' | left rest' here code' =>
    rw [code] at code'
    cases code'
  | fail rest' here code' before after =>
    obtain ⟨held, calm, going, stands⟩ | ⟨stopping, vacant⟩ := h.active_cases hx (.inl before)
    · refine h.restate hs step held .notInitialized ?_ length (fun z hz => ?_) stops
      · rw [conn]
        simp [Connection.markFailed, calm, ← stands, before]
      · rw [hy] at hz
        cases hz
        exact ⟨going_of_own step hx hy runs rfl going, after⟩
    · refine h.keep hs step ?_ length (fun s y held => ?_) stops ?_
      · rw [conn]
        simp [Connection.markFailed, stopping]
      · rw [vacant] at held
        cases held
      · rintro t' r closing here
        cases here
        cases finish_of_closing closing runs

theorem markInitialized (h : w.Owned) (hs : w.Sound) (step : WorldStep w (.run (.worker s)) v)
    (hx : w.workers[s]? = some x) (code : x.frames = .markInitialized :: rest)
    (calm : w.connection.stopping = false) (state : w.connection.state = .initializing)
    (conn : v.connection = { w.connection with state := .initialized })
    (length : v.workers.length = w.workers.length)
    (stops : ∀ t f, f.stops = true → f ∈ v.frames t → f ∈ w.frames t) : v.Owned := by
  have runs : w.frames (.worker s) = .markInitialized :: rest := by rw [frames_worker hx, code]
  obtain ⟨y, hy, worker⟩ := step.workerStep hx
  cases worker.standStep (hs.courses s x hx) with
  | keep same stays => exact absurd rfl (stays _ rest rfl code).1
  | refuse rest' here code' before busy => exact absurd ⟨calm, state⟩ busy
  | fail rest' here code' | left rest' here code' =>
    rw [code] at code'
    cases code'
  | mark rest' here code' before _ _ after =>
    obtain ⟨held, -, going, -⟩ | ⟨stopping, -⟩ := h.active_cases hx (.inl before)
    · refine h.restate hs step held .initialized conn length (fun z hz => ?_) stops
      rw [hy] at hz
      cases hz
      exact ⟨going_of_own step hx hy runs rfl going, after⟩
    · rw [calm] at stopping
      cases stopping

theorem run (h : w.Owned) (hs : w.Sound) (ok : w.Orderly (.run t))
    (step : WorldStep w (.run t) v) : v.Owned := by
  obtain ⟨f, rest, fs, u, code, ran, result, now⟩ := step.ran
  have conn : v.connection = u.connection := by rw [result]; cases t <;> rfl
  have length : v.workers.length = u.workers.length := by rw [result]; cases t <;> simp
  have onStack {s : Nat} {x : Worker} (here : t = .worker s) (hx : w.workers[s]? = some x) :
      x.frames = f :: rest := by
    rw [← frames_worker hx, ← here, code]
  have inCode : f ∈ w.frames t := by rw [code]; exact List.mem_cons_self ..
  have quiet (same : u.connection = w.connection) (old : u.workers.length = w.workers.length)
      (calm : Calm w f) (none : ∀ g ∈ fs, g.stops = false) (unfinished : f ≠ .finishShutdown) :
      v.Owned :=
    h.run_calm hs step code now (conn.trans same) (length.trans old) calm none unfinished
  cases ran with
  | takeStale cb s state calm held =>
    refine Owned.takeStale (.start cb :: rest) h hs step code calm state held now ?_ conn length
    intro g hg hstops
    rcases List.mem_cons.mp hg with rfl | hg
    · cases hstops
    · exact hg
  | takeNothing cb state calm held =>
    exact quiet (h.vacant held calm).symm rfl ⟨by simp, by simp, by simp⟩ (by simp [Frame.stops])
      (by simp)
  | startStopping cb stopping =>
    refine quiet rfl rfl ⟨by simp, by simp, ?_⟩ (by simp [Frame.stops]) (by simp)
    rintro cb' - ⟨calm, -⟩
    rw [stopping] at calm
    cases calm
  | startAgain cb calm state =>
    refine quiet rfl rfl ⟨by simp, by simp, ?_⟩ (by simp [Frame.stops]) (by simp)
    rintro cb' - ⟨-, free⟩
    exact state free
  | start cb calm state =>
    refine h.start hs step calm state conn ?_ (stops_of_pushed step code now (by simp))
    rw [length]
    cases w.connection.worker <;> simp
  | beginShutdown src a s calm held =>
    exact h.beginShutdown hs ok step code calm held now conn length
  | finishShutdown =>
    exact h.finishShutdown hs step code now conn length (stops_of_pushed step code now (by simp))
  | markFailed =>
    obtain ⟨s, x, rfl, hx⟩ := hs.worker_of_mem rfl inCode
    exact h.markFailed hs step hx (onStack rfl hx) now conn length
  | own f s x x' c chain fs isHere hx own =>
    have old : (w.workers.set s x').length = w.workers.length := by simp
    have none : ∀ g ∈ fs, g.stops = false := fun g hg => (Plain.own own).stays hg
    cases own with
    | markInitialized calm state =>
      subst isHere
      exact h.markInitialized hs step hx (onStack rfl hx) calm state conn (length.trans old)
        (stops_of_pushed step code now none)
    | markRefused busy =>
      exact quiet rfl old ⟨by simp, fun _ => busy, by simp⟩ none (by simp)
    | _ => exact quiet rfl old ⟨by simp, by simp, by simp⟩ none (by simp)
  | leave s x isHere hx =>
    exact quiet rfl (by simp) ⟨by simp, by simp, by simp⟩ (by simp) (by simp)
  | stray f own absent =>
    obtain ⟨s, x, here, hx⟩ := hs.worker_of_mem own inCode
    exact absurd hx (absent s x here)
  | init | operate | register | unregister | unregisterAwait | notifyNobody | notify | delivered
  | deliver =>
    refine quiet ?_ ?_ ⟨by simp, by simp, by simp⟩ (by simp [Frame.stops]) (by simp)
    all_goals simp [World.draw, World.record, World.setRegistry_eq, World.setDelivery_eq]
  | enqueue | signal =>
    exact quiet rfl (by simp) ⟨by simp, by simp, by simp⟩ (by simp [Frame.stops]) (by simp)
  | _ => exact quiet rfl rfl ⟨by simp, by simp, by simp⟩ (by simp [Frame.stops]) (by simp)

/-- A step of an orderly run keeps the owner of the connection. -/
theorem step (h : w.Owned) (hs : w.Sound) (ok : w.Orderly m) (step : WorldStep w m v) :
    v.Owned := by
  have still (nobody : ∀ t, m ≠ .run t) (same : v.connection = w.connection)
      (old : v.workers.length = w.workers.length) : v.Owned := by
    refine h.keep hs step same old ?_ (stops_of_still step nobody) fun t _ _ => nobody t
    exact fun s y held hy => h.held_step hs step (fun t _ _ here => absurd here (nobody t)) held hy
  cases m with
  | run t => exact h.run hs ok step
  | call n a => cases step; exact still (by simp) rfl rfl
  | release n => cases step; exact still (by simp) rfl rfl
  | reply s i r => cases step; exact still (by simp) rfl (by simp [World.withWorker])
  | turn s k => cases step; exact still (by simp) rfl (by simp [World.withWorker])

/-- Nobody owns the connection at first. -/
theorem of_untouched (h : w.Untouched) : w.Owned := by
  have none (s : Nat) : w.workers[s]? = none := by rw [h.workers]; rfl
  constructor
  · intro s running
    rw [h.connection] at running
    cases running
  · intro s held
    rw [h.connection] at held
    cases held
  · exact fun _ _ => h.connection
  · intro s x hx
    rw [none] at hx
    cases hx
  · intro t r hr
    rw [h.frames] at hr
    cases hr
  · intro stopping
    rw [h.connection] at stopping
    cases stopping
  · intro _ t ht
    rw [h.frames] at ht
    cases ht

/-- In every world of an orderly run the connection is owned. -/
theorem of_reaches (first : w.Untouched) (h : ReachesBy Orderly w v) : v.Owned := by
  have both := h.keeps (P := fun w => w.Sound ∧ w.Owned)
    ⟨Sound.of_untouched first, of_untouched first⟩
    fun w m v ⟨sound, owned⟩ ok hstep => ⟨sound.step hstep, owned.step sound ok hstep⟩
  exact both.2

end Owned

end World
end Runs
end RemoteNode.Session
