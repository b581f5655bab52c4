import RemoteNode.Proofs.Session.Ownership

/-! Sessions do not reach into each other. Once a shutdown has ended the session of a worker, that
worker changes neither the connection nor what is known of the chain, and what it reports about
itself takes effect only while its handle is held. A worker that shuts itself down in the midst of
its first refresh breaks this, and a run in which one does is given. -/

namespace RemoteNode.Session

/-- The move is one of a worker: its thread runs, it takes a turn, or a reply comes for it. -/
def Move.isOf (s : Nat) : Move → Prop
  | run t => t = .worker s
  | turn r _ => r = s
  | reply r _ _ => r = s
  | call _ _ | release _ => False

/-- The code goes on with a call that initializes, shuts down or asks for an operation. Such calls
are made by callers, observers and callbacks, on whatever thread these run. -/
def inCall : List Frame → Bool
  | .takeStale _ :: _ | .start _ :: _ | .signal _ :: _ | .join _ :: _ => true
  | .beginShutdown _ _ :: _ | .forgetFeeAddress :: _ | .finishShutdown :: _ => true
  | .forgetChain :: .forgetFeeAddress :: _ => true
  | .dispatch _ :: _ | .enqueue _ _ :: _ => true
  | _ => false

section Steps
variable {w u v : World} {m : Move} {t : Thread} {f : Frame} {fs rest : List Frame} {s r : Nat}
  {x y : Worker} {cb : Callback}

/-- What a worker is in the midst of as long as code of its own may touch what is shared. -/
theorem isActive_of_code (h : x.OnCourse) (hf : f ∈ ownCode x.frames)
    (touches : f.writes = true ∨ f = .markInitialized ∨ f = .markFailed) : x.IsActive := by
  have course := h.course
  have code : x.stands = standsFor x.phase (ownCode x.frames) := rfl
  have writes : x.writes = (ownCode x.frames).any Frame.writes := rfl
  generalize x.phase = p, x.refreshing = q, x.refreshes = n, ownCode x.frames = o at *
  rw [Worker.IsActive, code]
  cases course with
  | refresh p fs stays refresh =>
    cases p with
    | opening => exact .inl (standsFor_refresh refresh)
    | live | closed =>
      refine .inr ⟨rfl, .inr ?_⟩
      rw [writes, List.any_eq_true]
      obtain touches | rfl | rfl := touches
      · exact ⟨f, hf, touches⟩
      · cases refresh <;> simp at hf
      · cases refresh <;> simp at hf
    | ended => exact absurd rfl stays
  | mark | lost | failed => exact .inl rfl
  | asked | asleep | spent | ended => cases hf
  | connect | goLive | refused | leave | hush | finish =>
    simp only [List.mem_cons, List.not_mem_nil, or_false] at hf
    rcases hf with rfl | rfl <;> simp [Frame.writes] at touches

/-- What a worker does outside of calls leaves other workers alone, and the connection and the chain
as well unless it is in the midst of something. -/
theorem FrameStep.untouched (hs : w.Sound) (hx : w.workers[s]? = some x)
    (hf : x.frames = f :: rest) (step : FrameStep w (.worker s) f u fs)
    (outside : inCall (f :: rest) = false) (inactive : ¬x.IsActive) :
    u.connection = w.connection ∧ u.chain = w.chain ∧
      ∀ r, r ≠ s → u.workers[r]? = w.workers[r]? := by
  have touches (g : Frame) (hg : g ∈ x.frames) (own : g.isOwn = true) :
      ¬(g.writes = true ∨ g = .markInitialized ∨ g = .markFailed) := fun h =>
    inactive (isActive_of_code (hs.courses s x hx) ((mem_ownCode own).mpr hg) h)
  have head : f ∈ x.frames := by rw [hf]; exact List.mem_cons_self ..
  cases step with
  | takeStale | takeNothing | leaveStale | startStopping | startAgain | start | signal | join
  | beginNothing | beginShutdown | forgetFeeAddress | finishShutdown | dispatch | refuse | enqueue
  | tooLate => cases outside
  | markFailed => exact absurd (.inr (.inr rfl)) (touches _ head rfl)
  | forgetChain =>
    exfalso
    -- the chain is forgotten by a shutdown, or right before a failure is reported
    have stack := hs.stacked (.worker s)
    rw [frames_worker hx, hf] at stack
    generalize hg : Frame.forgetChain :: rest = code at stack
    cases stack with
    | plain code plain =>
      subst hg
      obtain ⟨gs, rfl, -⟩ := plain.forgetChain
      exact touches .markFailed (by rw [hf]; simp) rfl (.inr (.inr rfl))
    | stale | staleJoin => cases hg
    | closing r k gs left plain =>
      obtain ⟨hrest, next⟩ := shutdownCode_next left hg
      have : k = 2 := by simpa using next
      subst this
      rw [hrest] at outside
      cases outside
  | own f r z x' c chain fs isHere hz step =>
    cases step with
    | markInitialized | markRefused => exact absurd (.inr (.inl rfl)) (touches _ head rfl)
    | noteFee | notePeers | noteKnown | noteHeight | noteHeader =>
      exact absurd (.inl rfl) (touches _ head rfl)
    | _ =>
      cases isHere
      exact ⟨rfl, rfl, fun r hr => List.getElem?_set_ne (Ne.symm hr)⟩
  | leave r z isHere hz =>
    cases isHere
    exact ⟨rfl, rfl, fun r hr => List.getElem?_set_ne (Ne.symm hr)⟩
  | init | operate | register | unregister | unregisterAwait | notifyNobody | notify | delivered
  | deliver =>
    simp [World.draw, World.record, World.setRegistry_eq, World.setDelivery_eq]
  | _ => exact ⟨rfl, rfl, fun _ _ => rfl⟩

/-- A worker that is not the running one changes neither the connection nor the chain nor another
worker. -/
theorem unchanged_of_over (hs : w.Sound) (owned : w.Owned) (step : WorldStep w m v)
    (mine : m.isOf s) (outside : inCall (w.frames (.worker s)) = false)
    (past : w.connection.running ≠ some s) : v.connection = w.connection ∧ v.chain = w.chain ∧
      ∀ r, r ≠ s → v.workers[r]? = w.workers[r]? := by
  cases step with
  | caller n f rest fs u h step => cases mine
  | worker r x f rest fs u hx hf step =>
    cases mine
    rw [frames_worker hx, hf] at outside
    have same := FrameStep.untouched hs hx hf step outside fun active =>
      past (owned.active s x hx active)
    refine ⟨same.1, same.2.1, fun r hr => ?_⟩
    rw [← same.2.2 r hr]
    simp [Ne.symm hr]
  | call | release => cases mine
  | reply | turn =>
    cases mine
    exact ⟨rfl, rfl, fun r hr => List.getElem?_set_ne (Ne.symm hr)⟩

/-- How a step changes which worker runs. -/
theorem FrameStep.running (step : FrameStep w t f u fs) :
    u.connection.running = w.connection.running ∨
      u.connection.running = none ∧ (f = .finishShutdown ∨
        w.connection.state = .notInitialized ∧ w.connection.stopping = false) ∨
      u.connection.running = some w.workers.length ∧
        w.connection.state = .notInitialized ∧ w.connection.stopping = false := by
  cases step with
  | takeStale cb s state calm | takeNothing cb state calm =>
    exact .inr (.inl ⟨rfl, .inr ⟨state, calm⟩⟩)
  | start cb calm state => exact .inr (.inr ⟨rfl, state, calm⟩)
  | finishShutdown => exact .inr (.inl ⟨rfl, .inl rfl⟩)
  | markFailed =>
    left
    change w.connection.markFailed.running = _
    rw [Connection.markFailed]
    split <;> rfl
  | own f s x x' c chain fs isHere hx step => cases step <;> exact .inl rfl
  | init | operate | register | unregister | unregisterAwait | notifyNobody | notify | delivered
  | deliver =>
    left
    simp [World.draw, World.record, World.setRegistry_eq, World.setDelivery_eq]
  | _ => exact .inl rfl

theorem connection_setFrames (u : World) (t : Thread) (fs : List Frame) :
    (u.setFrames t fs).connection = u.connection := by
  cases t <;> rfl

theorem over_step (step : WorldStep w m v) (there : s < w.workers.length)
    (past : w.connection.running ≠ some s) : v.connection.running ≠ some s := by
  cases m with
  | run t =>
    obtain ⟨f, rest, fs, u, code, ran, rfl, now⟩ := step.ran
    rw [connection_setFrames]
    obtain same | ⟨none, -⟩ | ⟨new, -⟩ := ran.running
    · rw [same]
      exact past
    · rw [none]
      simp
    · rw [new]
      intro same
      have : w.workers.length = s := Option.some.inj same
      omega
  | call | release | reply | turn => cases step; exact past

theorem over_reaches {allowed : World → Move → Prop} (h : World.ReachesBy allowed w v)
    (there : s < w.workers.length) (past : w.connection.running ≠ some s) :
    v.connection.running ≠ some s := by
  have both := h.keeps (P := fun w => s < w.workers.length ∧ w.connection.running ≠ some s)
    ⟨there, past⟩ fun w m v ⟨there, past⟩ _ step => by
      refine ⟨?_, over_step step there past⟩
      obtain same | ⟨more, -⟩ := step.length_workers <;> omega
  exact both.2

/-- A worker that reports about itself is heard only while its handle is held. -/
theorem held_of_mark (hs : w.Sound) (owned : w.Owned) (step : WorldStep w (.run (.worker s)) v)
    (code : w.frames (.worker s) = f :: rest) (mark : f = .markInitialized ∨ f = .markFailed)
    (heard : v.connection ≠ w.connection) : w.connection.worker = some s := by
  obtain ⟨x, hx, hf⟩ := worker_of_frames code
  have active : x.IsActive := by
    refine isActive_of_code (hs.courses s x hx) (f := f) ?_ (.inr mark)
    rw [mem_ownCode (by rcases mark with rfl | rfl <;> rfl), hf]
    exact List.mem_cons_self ..
  obtain ⟨held, -⟩ | ⟨stopping, -⟩ := owned.active_cases hx active
  · exact held
  · exfalso
    apply heard
    obtain ⟨g, gs, fs, u, code', ran, rfl, -⟩ := step.ran
    rw [code] at code'
    cases code'
    rw [connection_setFrames]
    cases ran with
    | markFailed =>
      change w.connection.markFailed = _
      simp [Connection.markFailed, stopping]
    | own f r z x' c chain fs isHere hz step =>
      cases step with
      | markInitialized calm => rw [stopping] at calm; cases calm
      | markRefused => rfl
      | _ => simp at mark
    | stray => rfl
    | _ => simp at mark

end Steps

namespace World

/-- Where an initialization is about to be told that it succeeded, its own worker has just reported
so and still runs. -/
def Granted (w : World) : Prop :=
  ∀ t cb, .complete cb (.init (.ok ())) ∈ w.frames t → ∃ s x rest, t = .worker s ∧
    w.workers[s]? = some x ∧ x.frames = .complete cb (.init (.ok ())) :: .goLive :: rest ∧
    (∀ cb', .complete cb' (.init (.ok ())) ∉ rest) ∧ x.callback = cb ∧
    w.connection.running = some s

namespace Granted
variable {w u v : World} {m : Move} {t : Thread} {f : Frame} {fs rest : List Frame} {s : Nat}
  {x y : Worker} {cb : Callback}

theorem pushed (step : FrameStep w t f u fs) (h : .complete cb (.init (.ok ())) ∈ fs) :
    f = .markInitialized ∧ ∃ s x, t = .worker s ∧ w.workers[s]? = some x ∧ x.callback = cb ∧
      w.connection.stopping = false ∧ w.connection.state = .initializing ∧
      fs = [.complete cb (.init (.ok ())), .goLive] := by
  cases step with
  | own f s x x' c chain fs isHere hx step =>
    cases step with
    | markInitialized calm state =>
      simp at h
      subst h
      exact ⟨rfl, s, x, isHere, hx, rfl, calm, state, rfl⟩
    | _ => simp at h
  | _ => simp [Job.outcome] at h

theorem of_turn {p : Phase} (code : TurnCode p fs) : .complete cb (.init (.ok ())) ∉ fs := by
  cases code with
  | refresh fs code => cases code <;> simp
  | _ => simp [Job.outcome]

theorem running_step (owned : w.Owned) (hs : w.Sound) (step : WorldStep w m v)
    (hx : w.workers[s]? = some x) (live : .goLive ∈ ownCode x.frames)
    (head : ∀ rest, x.frames ≠ .finishShutdown :: rest)
    (running : w.connection.running = some s) : v.connection.running = some s := by
  have course := hs.courses s x hx
  have stands : x.stands = .initialized ∧ x.phase ≠ .ended := by
    have course := course.course
    rw [Worker.stands]
    generalize x.phase = p, x.refreshing = q, x.refreshes = n, ownCode x.frames = o at *
    cases course with
    | goLive => exact ⟨rfl, by simp⟩
    | refresh p fs stays code => cases code <;> simp at live
    | _ => simp at live
  have busy : ¬(w.connection.state = .notInitialized ∧ w.connection.stopping = false) := by
    rintro ⟨state, calm⟩
    obtain held | stopping := (owned.running s running).2
    · obtain ⟨-, -, x', hx', -, same⟩ := owned.held s held
      rw [hx] at hx'
      cases hx'
      rw [stands.1, state] at same
      cases same
    · rw [calm] at stopping
      cases stopping
  cases m with
  | run t =>
    obtain ⟨f, rest, fs, u, code, ran, rfl, now⟩ := step.ran
    rw [connection_setFrames]
    obtain same | ⟨none, rfl | free⟩ | ⟨new, free⟩ := ran.running
    · rw [same, running]
    · exfalso
      have stopping : w.connection.stopping = true := by
        by_contra calm
        exact owned.calm (by simpa using calm) t (by rw [code]; simp)
      obtain ⟨t', r, k, closing, running', vacant, only⟩ := owned.closing stopping
      have : t = t' := only t (by rw [code]; simp)
      subst this
      have : r = s := Option.some.inj (running'.symm.trans running)
      subst this
      obtain ⟨gs, hgs, plain⟩ := closing.code
      obtain ⟨hrest, next⟩ := shutdownCode_next closing.left (code.symm.trans hgs)
      have : k = 4 := by simpa using next
      subst this
      by_cases here : t = .worker r
      · subst here
        rw [frames_worker hx] at code
        exact head rest code
      · exact stands.2 (closing.ended (by omega) here x hx)
    · exact absurd free busy
    · exact absurd free busy
  | call | release | reply | turn => cases step; exact running

theorem of_untouched (h : w.Untouched) : w.Granted := by
  intro t cb hcb
  rw [h.frames] at hcb
  cases hcb

theorem step (h : w.Granted) (owned : w.Owned) (hs : w.Sound) (step : WorldStep w m v) :
    v.Granted := by
  intro t cb hcb
  have thread := step.threadStep t
  -- the code is the same as before, or the worker has just reported that it is ready
  generalize hw : w.frames t = code, hv : v.frames t = code' at thread
  rw [hv] at hcb
  cases thread with
  | same =>
    obtain ⟨s, x, rest, rfl, hx, hf, others, rfl, running⟩ := h t cb (hw ▸ hcb)
    obtain ⟨y, hy, worker⟩ := step.workerStep hx
    have frames : y.frames = x.frames := by
      rw [← frames_worker hy, hv, ← hw, frames_worker hx]
    refine ⟨s, y, rest, rfl, hy, by rw [frames, hf], others, ?_, ?_⟩
    · exact worker.callback
    · refine running_step owned hs step hx ?_ (by simp [hf]) running
      rw [mem_ownCode rfl, hf]
      simp
  | run f rest fs u here hf ran result =>
    subst here
    have absent : .complete cb (.init (.ok ())) ∉ rest := by
      intro inRest
      obtain ⟨s, x, rest', rfl, hx, hf', others, rfl, running⟩ :=
        h t cb (by rw [hf]; exact List.mem_cons_of_mem _ inRest)
      rw [frames_worker hx, hf'] at hf
      cases hf
      rcases List.mem_cons.mp inRest with same | inRest
      · cases same
      · exact others _ inRest
    rcases List.mem_append.mp hcb with hcb | hcb
    · obtain ⟨rfl, s, x, rfl, hx, rfl, calm, state, rfl⟩ := pushed ran hcb
      obtain ⟨y, hy, worker⟩ := step.workerStep hx
      rw [frames_worker hx] at hf
      have active : x.IsActive := by
        refine isActive_of_code (hs.courses s x hx) (f := .markInitialized) ?_ (.inr (.inl rfl))
        rw [mem_ownCode rfl, hf]
        simp
      refine ⟨s, y, rest, rfl, hy, by rw [← frames_worker hy, hv]; rfl, ?_, worker.callback, ?_⟩
      · intro cb' inRest
        obtain ⟨s', x', rest', same, hx', hf', -⟩ := h (.worker s) cb' (by
          rw [frames_worker hx, hf]
          exact List.mem_cons_of_mem _ inRest)
        cases same
        rw [hx] at hx'
        cases hx'
        rw [hf] at hf'
        cases hf'
      · obtain ⟨f, rest', fs, u', code, ran, rfl, now⟩ := step.ran
        rw [frames_worker hx, hf] at code
        cases code
        rw [connection_setFrames]
        obtain same | ⟨-, finish | ⟨state', -⟩⟩ | ⟨-, state', -⟩ := ran.running
        · rw [same]
          exact owned.active s x hx active
        · cases finish
        · rw [state] at state'
          cases state'
        · rw [state] at state'
          cases state'
    · exact absurd hcb absent
  | call | release | started => simp at hcb
  | turn s k x x' es here turn hx idle step => exact absurd hcb (of_turn (step.code idle))

end Granted

/-- No worker reaches into a session that is not its own. -/
structure Isolated (w : World) : Prop where
  /-- Once a shutdown has ended the session of a worker, no later step of that worker changes the
  connection, what is known of the chain or another worker. Calls made on its thread are not steps
  of the worker. -/
  parted : ∀ t r rest v u m u', w.connection.running = some r →
    w.frames t = .finishShutdown :: rest → w.step (.run t) = some v →
    ReachesBy Orderly v u → m.isOf r → inCall (u.frames (.worker r)) = false →
    u.step m = some u' → u'.connection = u.connection ∧ u'.chain = u.chain ∧
      ∀ s, s ≠ r → u'.workers[s]? = u.workers[s]?
  /-- What a worker reports about its first refresh takes effect only while its handle is held. -/
  heard : ∀ s f rest v, w.frames (.worker s) = f :: rest →
    f = .markInitialized ∨ f = .markFailed → w.step (.run (.worker s)) = some v →
    v.connection ≠ w.connection → w.connection.worker = some s
  /-- An initialization is told that it succeeded by its own worker, which no shutdown has ended. -/
  granted : ∀ t cb rest, w.frames t = .complete cb (.init (.ok ())) :: rest →
    ∃ s x, t = .worker s ∧ w.workers[s]? = some x ∧ x.callback = cb ∧
      w.connection.running = some s
  /-- While the connection is initialized and nothing is shut down, operations go to the worker
  whose handle is held. It has reported that it is ready and was not told to stop; it queues every
  job it is sent and takes it when it has nothing else to run. -/
  serves : w.connection.state = .initialized → w.connection.stopping = false →
    ∃ s x, w.connection.worker = some s ∧ w.connection.server = .ok s ∧
      w.workers[s]? = some x ∧ x.stopped = false ∧ (x.phase = .live ∨ .goLive ∈ x.frames) ∧
      (∀ j, w.enqueue s j =
        (w.updateWorker s fun x => { x with queue := x.queue ++ [j] }, [])) ∧
      (x.frames = [] → x.queue ≠ [] → (w.turn s .take).isSome = true)

namespace Owned
variable {w u v : World} {m : Move} {t : Thread} {f : Frame} {rest : List Frame} {s r : Nat}
  {x : Worker}

/-- When a shutdown ends, the session of the worker it was about is over. -/
theorem over_of_finish (owned : w.Owned) (running : w.connection.running = some r)
    (code : w.frames t = .finishShutdown :: rest) (step : WorldStep w (.run t) v) :
    v.connection.running ≠ some r ∧ r < v.workers.length := by
  have there := (owned.running r running).1
  refine ⟨?_, by obtain same | ⟨more, -⟩ := step.length_workers <;> omega⟩
  obtain ⟨g, gs, fs, u, code', ran, rfl, -⟩ := step.ran
  rw [code] at code'
  cases code'
  rw [connection_setFrames]
  cases ran with
  | finishShutdown => simp [Connection.finishShutdown]
  | own f s x x' c chain fs isHere hx h => cases h
  | stray f own => cases own

/-- A worker that stands for an initialized connection and was not told to stop takes jobs. -/
theorem open_of_stands (h : x.OnCourse) (stands : x.stands = .initialized)
    (going : x.stopped = false) : x.isClosed = false ∧ (x.phase = .live ∨ .goLive ∈ x.frames) := by
  have closed := h.closed
  rw [going] at closed
  cases hp : x.phase with
  | live => simp [Worker.isClosed, hp]
  | closed => simp [hp] at closed
  | ended =>
    rw [Worker.stands, hp] at stands
    cases stands
  | opening =>
    refine ⟨by simp [Worker.isClosed, hp], .inr ?_⟩
    rw [← mem_ownCode rfl]
    have course := h.course
    rw [Worker.stands, hp] at stands
    rw [hp] at course
    generalize x.refreshing = q, x.refreshes = n, ownCode x.frames = o at course stands ⊢
    cases course with
    | goLive => simp
    | refresh p fs stays code => cases code <;> cases stands
    | _ => cases stands

end Owned

/-- In a run in which every worker that shuts itself down has settled before, no worker reaches into
a session that is not its own. -/
theorem isolated_of_orderly {w₀ w : World} (first : w₀.Untouched)
    (run : ReachesBy Orderly w₀ w) : w.Isolated := by
  have everywhere {v : World} (h : ReachesBy Orderly w₀ v) : v.Sound ∧ v.Owned :=
    ⟨.of_reaches first h.reaches, .of_reaches first h⟩
  obtain ⟨sound, owned⟩ := everywhere run
  constructor
  · intro t r rest v u m u' running code hv later mine outside hu
    have ends : ReachesBy Orderly w v :=
      .step _ (.refl w) (fun s src a rest' x here code' => by
        cases here
        rw [code] at code'
        cases code') hv
    obtain ⟨past, there⟩ := owned.over_of_finish running code (worldStep_of_step hv)
    obtain ⟨sound', owned'⟩ := everywhere ((run.trans ends).trans later)
    exact unchanged_of_over sound' owned' (worldStep_of_step hu) mine outside
      (over_reaches later there past)
  · intro s f rest v code mark hv heard
    exact held_of_mark sound owned (worldStep_of_step hv) code mark heard
  · intro t cb rest code
    have granted : w.Granted := by
      have all := run.keeps (P := fun w => w.Sound ∧ w.Owned ∧ w.Granted)
        ⟨.of_untouched first, .of_untouched first, .of_untouched first⟩
        fun w m v ⟨sound, owned, granted⟩ ok step =>
          ⟨sound.step step, owned.step sound ok step, granted.step owned sound step⟩
      exact all.2.2
    obtain ⟨s, x, rest', rfl, hx, -, -, callback, running⟩ := granted t cb (by rw [code]; simp)
    exact ⟨s, x, rfl, hx, callback, running⟩
  · intro state calm
    cases held : w.connection.worker with
    | none =>
      have vacant := owned.vacant held calm
      rw [vacant] at state
      cases state
    | some s =>
      obtain ⟨-, -, x, hx, going, stands⟩ := owned.held s held
      obtain ⟨isOpen, passed⟩ :=
        Owned.open_of_stands (sound.courses s x hx) (stands.trans state) going
      refine ⟨s, x, rfl, ?_, hx, going, passed, ?_, ?_⟩
      · simp [Connection.server, calm, state, held]
      · intro j
        simp [World.enqueue, hx, isOpen]
      · intro idle waiting
        have live : x.phase = .live := by
          obtain live | pending := passed
          · exact live
          · rw [idle] at pending
            cases pending
        obtain ⟨j, rest, queue⟩ := List.exists_cons_of_ne_nil waiting
        simp [World.turn, hx, Worker.isIdle, idle, live, World.take, queue]

/-! ### Shutting down in the midst of the first refresh -/

/-- A world with one caller in which the first observer shuts down when it is told of the pool, and
the second initializes. -/
def restless : World := { initial 1 .standard with
  reaction := fun o n => match n with
    | .pool _ _ => if o = 0 then [.shutdown] else [.init "again" []]
    | _ => []
  kept := [0, 1] }

/-- A complete answer. -/
def answered (body : List UInt8) : Reply := .arrival (.inTime ⟨200, .inTime body⟩)

/-- The bytes of some texts. -/
def bytesOf (texts : List String) : List UInt8 := texts.flatMap fun s => s.toUTF8.toList

def infoBody : List UInt8 := bytesOf
  ["\x7b\"status\":\"OK\",\"height\":5,", "\"outgoing_connections_count\":8\x7d"]

def headerBody : List UInt8 := bytesOf
  ["\x7b\"result\":\x7b\"status\":\"OK\",\"block_header\":\x7b",
    "\"major_version\":1,\"minor_version\":0,", "\"timestamp\":1,\"nonce\":7,\"height\":5,",
    "\"prev_hash\":\"", "01010101010101010101010101010101", "01010101010101010101010101010101",
    "\",", "\"hash\":\"", "02020202020202020202020202020202",
    "02020202020202020202020202020202", "\"", "\x7d\x7d\x7d"]

/-- The tail is actual, and the pool has one transaction. -/
def poolBody : List UInt8 :=
  [1, 1, 0, 0, 0, 0, 0, 0, 0, 1, 0, 0, 0, 0, 0, 0, 0, 7, 0, 0, 0, 0, 0, 0, 0, 0,
    2, 0, 0, 0, 0, 0, 0, 0, 79, 75]

/-- Both observers are registered, a caller initializes, and the first refresh gets its answers. -/
def shutInRefresh : Option World := do
  let w := ((restless.perform 0 (.register .node 0) 9).perform 0 (.register .node 1) 9).perform 0
    (.init "first" []) 30
  let w ← w.step (.reply 0 0 (answered infoBody))
  let w ← (w.settle 40).step (.reply 0 0 (answered headerBody))
  let w ← (w.settle 40).step (.reply 0 0 (answered poolBody))
  pure (w.settle 60)

theorem reaches_shutInRefresh {w : World} (h : shutInRefresh = some w) : restless.Reaches w := by
  simp only [shutInRefresh, Option.bind_eq_bind, Option.bind_eq_some_iff, Option.pure_def,
    Option.some.injEq] at h
  obtain ⟨w₁, h₁, w₂, h₂, w₃, h₃, rfl⟩ := h
  have first := ((reaches_perform restless 0 (.register .node 0) 9).trans
    (reaches_perform _ 0 (.register .node 1) 9)).trans (reaches_perform _ 0 (.init "first" []) 30)
  have info := (first.trans (.single h₁)).trans (reaches_settle 40 w₁)
  have header := (info.trans (.single h₂)).trans (reaches_settle 40 w₂)
  exact (header.trans (.single h₃)).trans (reaches_settle 60 w₃)

/-- The initialization that drew a ticket was told that it succeeded. -/
def tellsSuccess (ticket : Nat) : Entry → Bool
  | .completed cb (.init (.ok ())) _ => cb.ticket = ticket
  | _ => false

set_option maxRecDepth 20000 in
/-- The first worker, whose session a shutdown has ended, reports that it is ready in the place of
the second, which is in the midst of its first refresh. -/
theorem shutInRefresh_usurped : shutInRefresh.any (fun w =>
    w.connection = ⟨.initialized, false, some 1, some 1⟩ &&
    (w.workers[1]?).any (fun x => x.phase = .opening && x.frames.isEmpty) &&
    w.log.any (tellsSuccess 0)) = true := by
  decide +kernel

/-- A worker that shuts itself down in the midst of its first refresh reaches into the session that
comes after: its initialization is told that it succeeded, and the connection is initialized
although the worker whose handle is held has not made its first refresh. -/
theorem exists_not_isolated : ∃ w₀ w, Untouched w₀ ∧ w₀.Reaches w ∧
    w.connection = ⟨.initialized, false, some 1, some 1⟩ ∧
    (∃ x, w.workers[1]? = some x ∧ x.phase = .opening ∧ x.frames = []) ∧
    (∃ e ∈ w.log, tellsSuccess 0 e = true) ∧ ¬w.Isolated := by
  obtain ⟨w, hw, found⟩ := (Option.any_eq_true ..).mp shutInRefresh_usurped
  simp only [Bool.and_eq_true, decide_eq_true_eq, Option.any_eq_true, List.isEmpty_iff,
    List.any_eq_true] at found
  obtain ⟨⟨connection, x, hx, opening, idle⟩, e, he, success⟩ := found
  refine ⟨restless, w, ⟨1, .standard, true, _, _, rfl⟩, reaches_shutInRefresh hw, connection,
    ⟨x, hx, opening, idle⟩, ⟨e, he, success⟩, fun isolated => ?_⟩
  obtain ⟨s, y, held, -, hy, -, live | pending, -⟩ :=
    isolated.serves (by rw [connection]) (by rw [connection])
  all_goals
    rw [connection] at held
    cases held
    rw [hx] at hy
    cases hy
  · rw [opening] at live
    cases live
  · rw [idle] at pending
    cases pending

/-- A world with one caller in which no transport is available. -/
def cutOff : World := { initial 1 .standard with transport := false }

/-- A caller initializes, and the callback shuts down on the thread of the worker that failed. -/
def shutAfterFailure : List Move :=
  .call 0 (.init "first" [.shutdown]) :: List.replicate 5 (.run (.caller 0)) ++
    List.replicate 13 (.run (.worker 0))

/-- A worker that shuts itself down once it has failed leaves every session to itself. -/
theorem isolated_shutAfterFailure : ∃ w, ReachesBy Orderly cutOff w ∧
    cutOff.checkedSteps isOrderly shutAfterFailure = some w ∧ w.connection = .initial ∧
    w.workers.length = 1 ∧ w.Isolated := by
  have found : (cutOff.checkedSteps isOrderly shutAfterFailure).any (fun w =>
      w.connection = .initial && w.workers.length = 1) = true := by decide +kernel
  obtain ⟨w, hw, found⟩ := (Option.any_eq_true ..).mp found
  simp only [Bool.and_eq_true, decide_eq_true_eq] at found
  have run := ReachesBy.of_checkedSteps (fun _ _ h => orderly_of_isOrderly h) hw
  exact ⟨w, run, hw, found.1, found.2,
    isolated_of_orderly ⟨1, .standard, false, _, [], rfl⟩ run⟩

end World

end RemoteNode.Session
