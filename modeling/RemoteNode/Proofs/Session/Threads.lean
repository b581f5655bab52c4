import RemoteNode.Proofs.Session.Turns
import RemoteNode.Session.Run

/-! A step of a world seen from one thread and from one worker. Everything else that a step does is
out of sight there, so facts about one thread or one worker are shown against these few cases. -/

namespace RemoteNode.Session

open Observer (Id Registry Notice Side)

section Code
variable {w u v : World} {t : Thread} {f : Frame} {fs : List Frame} {s n : Nat} {x y : Worker}

theorem frames_caller {gs : List Frame} (h : w.callers[n]? = some gs) :
    w.frames (.caller n) = gs := by
  simp [World.frames, h]

theorem frames_worker (h : w.workers[s]? = some x) : w.frames (.worker s) = x.frames := by
  simp [World.frames, h]

theorem worker_of_frames {gs : List Frame} (h : w.frames (.worker s) = f :: gs) :
    ∃ x, w.workers[s]? = some x ∧ x.frames = f :: gs := by
  cases hx : w.workers[s]? with
  | none => simp [World.frames, hx] at h
  | some x => exact ⟨x, rfl, by rw [← h, frames_worker hx]⟩

/-- What runs on a worker's own course is left to it. -/
theorem OwnStep.frames_eq {x' : Worker} {c : Connection} {chain : ChainView}
    (h : OwnStep w x f x' c chain fs) : x'.frames = x.frames := by
  cases h <;> rfl

theorem OwnStep.isOwn {x' : Worker} {c : Connection} {chain : ChainView}
    (h : OwnStep w x f x' c chain fs) : f.isOwn = true := by
  cases h <;> rfl

theorem none_of_any {p : Frame → Bool} (none : fs.any p = false) : ∀ g ∈ fs, p g = false := by
  intro g there
  simpa using List.any_eq_false.mp none g there

/-- A call, a notification or the end of a job pushes no code of a worker's own course. -/
theorem FrameStep.foreign (h : FrameStep w t f u fs) (foreign : f.isOwn = false) :
    ∀ g ∈ fs, g.isOwn = false := by
  cases h with
  | own f s x x' c chain fs isHere hx h => rw [h.isOwn] at foreign; cases foreign
  | _ => exact none_of_any rfl

theorem FrameStep.callers (h : FrameStep w t f u fs) : u.callers = w.callers := by
  cases h <;> simp only [World.setRegistry_eq, World.setDelivery_eq, World.draw, World.record]

end Code

/-- A worker that was told to stop by others, or was given jobs by them. -/
structure Worker.Touched (x y : Worker) : Prop where
  same : y = { x with stopped := y.stopped, queue := y.queue }
  stopped : x.stopped = true → y.stopped = true
  queue : y.queue = x.queue ∨ x.isClosed = false ∧ ∃ j, y.queue = x.queue ++ [j]

namespace Worker.Touched
variable {x y : Worker}

theorem refl (x : Worker) : x.Touched x := ⟨rfl, id, .inl rfl⟩

theorem stop (x : Worker) : x.Touched { x with stopped := true } := ⟨rfl, fun _ => rfl, .inl rfl⟩

theorem phase (h : x.Touched y) : y.phase = x.phase := by rw [h.same]

theorem frames (h : x.Touched y) : y.frames = x.frames := by rw [h.same]

theorem callback (h : x.Touched y) : y.callback = x.callback := by rw [h.same]

theorem memory (h : x.Touched y) : y.memory = x.memory := by rw [h.same]

theorem refreshing (h : x.Touched y) : y.refreshing = x.refreshing := by rw [h.same]

theorem runnable (h : x.Touched y) : y.runnable = x.runnable := by rw [h.same]

theorem waiting (h : x.Touched y) : y.waiting = x.waiting := by rw [h.same]

end Worker.Touched

section Workers
variable {w u v : World} {t : Thread} {f : Frame} {fs : List Frame} {s : Nat} {x y : Worker}

theorem getElem?_modify_touched {l : List Worker} {r : Nat} {g : Worker → Worker}
    (h : ∀ x, l[s]? = some x → r = s → x.Touched (g x)) (hx : l[s]? = some x) :
    ∃ y, (l.modify r g)[s]? = some y ∧ x.Touched y := by
  by_cases hr : r = s
  · subst hr
    exact ⟨g x, by simp [hx], h x hx rfl⟩
  · exact ⟨x, by simp [hx, hr], .refl x⟩

/-- What is no part of its own course leaves a worker as it is, or touches it. -/
theorem FrameStep.touched (h : FrameStep w t f u fs) (foreign : f.isOwn = false)
    (hx : w.workers[s]? = some x) : ∃ y, u.workers[s]? = some y ∧ x.Touched y := by
  cases h with
  | own f s x x' c chain fs isHere hx h => rw [h.isOwn] at foreign; cases foreign
  | leave => cases foreign
  | start cb calm state =>
    have hs : s < w.workers.length := (List.getElem?_eq_some_iff.mp hx).1
    cases hw : w.connection.worker with
    | none => exact ⟨x, by simp [List.getElem?_append_left hs, hx], .refl x⟩
    | some r =>
      obtain ⟨y, hy, touched⟩ := getElem?_modify_touched (r := r)
        (fun x _ _ => Worker.Touched.stop x) hx
      refine ⟨y, ?_, touched⟩
      simpa [List.getElem?_append_left, hs] using hy
  | signal r => exact getElem?_modify_touched (fun x _ _ => Worker.Touched.stop x) hx
  | enqueue r j z hz isOpen =>
    refine getElem?_modify_touched (fun y hy hr => ?_) hx
    subst hr
    rw [hy] at hz
    cases hz
    exact ⟨rfl, id, .inr ⟨isOpen, j, rfl⟩⟩
  | init | operate | register | unregister | unregisterAwait | notifyNobody | notify | delivered
  | deliver =>
    refine ⟨x, ?_, .refl x⟩
    simpa [World.draw, World.record, World.setRegistry_eq, World.setDelivery_eq] using hx
  | _ => exact ⟨x, hx, .refl x⟩

theorem FrameStep.length_workers (h : FrameStep w t f u fs) :
    u.workers.length = w.workers.length ∨
      u.workers.length = w.workers.length + 1 ∧ (∃ cb, f = .start cb ∧
        u.workers[w.workers.length]? = some (Worker.new cb)) := by
  cases h with
  | start cb calm state =>
    have hl : (w.connection.worker.elim w.workers fun s =>
        w.workers.modify s fun x => { x with stopped := true }).length = w.workers.length := by
      cases w.connection.worker <;> simp
    refine .inr ⟨by simp [hl], cb, rfl, ?_⟩
    simp [hl]
  | own | leave | signal | enqueue => exact .inl (by simp)
  | init | operate | register | unregister | unregisterAwait | notifyNobody | notify | delivered
  | deliver =>
    exact .inl (by simp [World.draw, World.record, World.setRegistry_eq, World.setDelivery_eq])
  | _ => exact .inl rfl

end Workers

/-- What a step of a world can mean to a worker. -/
inductive WorkerStep (w : World) (m : Move) (s : Nat) (x : Worker) : Worker → Prop
  /-- It is left alone or touched. -/
  | others (y : Worker) (away : m ≠ .run (.worker s)) (touched : x.Touched y) :
    WorkerStep w m s x y
  /-- Its thread runs code that is no part of its course. -/
  | foreign (f : Frame) (rest fs : List Frame) (u : World) (y : Worker)
    (here : m = .run (.worker s)) (h : x.frames = f :: rest)
    (step : FrameStep w (.worker s) f u fs) (notOwn : f.isOwn = false) (touched : x.Touched y) :
    WorkerStep w m s x { y with frames := fs ++ rest }
  | own (f : Frame) (rest fs : List Frame) (x' : Worker) (c : Connection) (chain : ChainView)
    (here : m = .run (.worker s)) (h : x.frames = f :: rest) (step : OwnStep w x f x' c chain fs) :
    WorkerStep w m s x { x' with frames := fs ++ rest }
  | markFailed (rest : List Frame) (here : m = .run (.worker s))
    (h : x.frames = .markFailed :: rest) :
    WorkerStep w m s x { x with frames := rest }
  | leave (rest : List Frame) (here : m = .run (.worker s)) (h : x.frames = .leave :: rest) :
    WorkerStep w m s x { x with phase := .ended, refreshing := .over, frames := rest }
  | reply (i : Nat) (r : Reply) (task : Task) (here : m = .reply s i r)
    (h : x.waiting[i]? = some task) (fits : r.fits task = true) :
    WorkerStep w m s x
      { x with
        waiting := x.waiting.eraseIdx i, runnable := x.runnable ++ [(task, .answered r)] }
  | turn (k : Turn) (x' : Worker) (es : List Entry) (here : m = .turn s k) (idle : x.frames = [])
    (stays : x.phase ≠ .ended) (step : TurnStep w.timeout s x k x' es) : WorkerStep w m s x x'

section Workers
variable {w u v : World} {m : Move} {t : Thread} {f : Frame} {rest fs : List Frame} {s : Nat}
  {x y : Worker}

theorem FrameStep.workerStep (h : FrameStep w (.worker s) f u fs) (hx : w.workers[s]? = some x)
    (hf : x.frames = f :: rest) :
    ∃ y, u.workers[s]? = some y ∧
      WorkerStep w (.run (.worker s)) s x { y with frames := fs ++ rest } := by
  have hs : s < w.workers.length := (List.getElem?_eq_some_iff.mp hx).1
  cases own : f.isOwn with
  | false =>
    obtain ⟨y, hy, touched⟩ := h.touched own hx
    exact ⟨y, hy, .foreign f rest fs u y rfl hf h own touched⟩
  | true =>
    cases h with
    | own f r z x' c chain fs isHere hz step =>
      cases isHere
      rw [hx] at hz
      cases hz
      exact ⟨x', by simp [hs], .own f rest fs x' c chain rfl hf step⟩
    | leave r z isHere hz =>
      cases isHere
      rw [hx] at hz
      cases hz
      exact ⟨_, by simp [hs]; rfl, .leave rest rfl hf⟩
    | markFailed => exact ⟨x, hx, .markFailed rest rfl hf⟩
    | stray f own absent => exact absurd hx (absent s x rfl)
    | _ => cases own

theorem FrameStep.otherWorker (h : FrameStep w t f u fs) (ne : t ≠ .worker s)
    (hx : w.workers[s]? = some x) : ∃ y, u.workers[s]? = some y ∧ x.Touched y := by
  cases own : f.isOwn with
  | false => exact h.touched own hx
  | true =>
    cases h with
    | own f r z x' c chain fs isHere hz step =>
      have hr : r ≠ s := fun e => ne (e ▸ isHere)
      exact ⟨x, by simp [hr, hx], .refl x⟩
    | leave r z isHere hz =>
      have hr : r ≠ s := fun e => ne (e ▸ isHere)
      exact ⟨x, by simp [hr, hx], .refl x⟩
    | markFailed => exact ⟨x, hx, .refl x⟩
    | stray => exact ⟨x, hx, .refl x⟩
    | _ => cases own

/-- What a step means to a worker that is there already. -/
theorem WorldStep.workerStep (h : WorldStep w m v) (hx : w.workers[s]? = some x) :
    ∃ y, v.workers[s]? = some y ∧ WorkerStep w m s x y := by
  have hs : s < w.workers.length := (List.getElem?_eq_some_iff.mp hx).1
  cases h with
  | caller n f rest fs u h step =>
    obtain ⟨y, hy, touched⟩ := step.otherWorker (s := s) (by simp) hx
    exact ⟨y, hy, .others y (by simp) touched⟩
  | worker r z f rest fs u hz hf step =>
    by_cases hr : r = s
    · subst hr
      rw [hx] at hz
      cases hz
      obtain ⟨y, hy, step⟩ := step.workerStep hx hf
      exact ⟨_, by simp [hy], step⟩
    · obtain ⟨y, hy, touched⟩ := step.otherWorker (s := s) (by simpa using hr) hx
      exact ⟨y, by simp [hr, hy], .others y (by simpa using hr) touched⟩
  | call | release => exact ⟨x, hx, .others x (by simp) (.refl x)⟩
  | reply r i reply z task hz ht fits =>
    by_cases hr : r = s
    · subst hr
      rw [hx] at hz
      cases hz
      exact ⟨_, by simp [World.withWorker, hs], .reply i reply task rfl ht fits⟩
    · exact ⟨x, by simp [World.withWorker, hr, hx], .others x (by simp) (.refl x)⟩
  | turn r k z x' es hz idle stays step =>
    by_cases hr : r = s
    · subst hr
      rw [hx] at hz
      cases hz
      exact ⟨x', by simp [World.withWorker, hs], .turn k x' es rfl idle stays step⟩
    · exact ⟨x, by simp [World.withWorker, hr, hx], .others x (by simp) (.refl x)⟩

theorem WorldStep.length_workers (h : WorldStep w m v) :
    v.workers.length = w.workers.length ∨
      v.workers.length = w.workers.length + 1 ∧ ∃ t cb rest, m = .run t ∧
        w.frames t = .start cb :: rest ∧
        v.workers[w.workers.length]? = some (Worker.new cb) := by
  cases h with
  | caller n f rest fs u h step =>
    obtain same | ⟨more, cb, rfl, hy⟩ := step.length_workers
    · exact .inl same
    · exact .inr ⟨more, _, cb, rest, rfl, frames_caller h, hy⟩
  | worker r z f rest fs u hz hf step =>
    obtain same | ⟨more, cb, rfl, hy⟩ := step.length_workers
    · exact .inl (by simpa using same)
    · have hr : r ≠ w.workers.length := by
        have := (List.getElem?_eq_some_iff.mp hz).1
        omega
      refine .inr ⟨by simpa using more, _, cb, rest, rfl, by rw [frames_worker hz, hf], ?_⟩
      simp [hr, hy]
  | call | release => exact .inl rfl
  | reply | turn => exact .inl (by simp [World.withWorker])

theorem WorldStep.cameFrom (h : WorldStep w m v) (hy : v.workers[s]? = some y) :
    (∃ x, w.workers[s]? = some x ∧ WorkerStep w m s x y) ∨
      (s = w.workers.length ∧ ∃ t cb rest, m = .run t ∧ w.frames t = .start cb :: rest ∧
        y = Worker.new cb) := by
  have hs : s < v.workers.length := (List.getElem?_eq_some_iff.mp hy).1
  by_cases old : s < w.workers.length
  · obtain ⟨x, hx⟩ : ∃ x, w.workers[s]? = some x := ⟨_, List.getElem?_eq_getElem old⟩
    obtain ⟨z, hz, step⟩ := h.workerStep hx
    rw [hy] at hz
    cases hz
    exact .inl ⟨x, hx, step⟩
  · obtain same | ⟨more, t, cb, rest, rfl, hf, hn⟩ := h.length_workers
    · omega
    · have last : s = w.workers.length := by omega
      subst last
      rw [hy] at hn
      cases hn
      exact .inr ⟨rfl, t, cb, rest, rfl, hf, rfl⟩

end Workers

/-- What a step of a world can mean to the code of a thread. -/
inductive ThreadStep (w : World) (m : Move) (v : World) (t : Thread) :
    List Frame → List Frame → Prop
  | same (fs : List Frame) : ThreadStep w m v t fs fs
  | run (f : Frame) (rest fs : List Frame) (u : World) (here : m = .run t)
    (code : w.frames t = f :: rest) (step : FrameStep w t f u fs)
    (result : v = u.setFrames t (fs ++ rest)) : ThreadStep w m v t (f :: rest) (fs ++ rest)
  | call (n : Nat) (a : Act) (here : t = .caller n) (call : m = .call n a) :
    ThreadStep w m v t [] [.script .caller [a]]
  | release (n : Nat) (here : t = .caller n) (release : m = .release n) :
    ThreadStep w m v t [] [.beginShutdown .caller .shutdown]
  | turn (s : Nat) (k : Turn) (x x' : Worker) (es : List Entry) (here : t = .worker s)
    (turn : m = .turn s k) (hx : w.workers[s]? = some x) (idle : x.frames = [])
    (step : TurnStep w.timeout s x k x' es) : ThreadStep w m v t [] x'.frames
  | started (r : Thread) (cb : Callback) (rest : List Frame)
    (here : t = .worker w.workers.length) (run : m = .run r)
    (code : w.frames r = .start cb :: rest) : ThreadStep w m v t [] [.connect]

section Threads
variable {w u v : World} {m : Move} {t : Thread} {f : Frame} {rest fs : List Frame} {s : Nat}

theorem FrameStep.otherFrames (h : FrameStep w t f u fs) (s : Nat) :
    u.frames (.worker s) = w.frames (.worker s) ∨
      s = w.workers.length ∧ w.frames (.worker s) = [] ∧ u.frames (.worker s) = [.connect] ∧
        ∃ cb, f = .start cb := by
  by_cases old : s < w.workers.length
  · obtain ⟨x, hx⟩ : ∃ x, w.workers[s]? = some x := ⟨_, List.getElem?_eq_getElem old⟩
    left
    rw [frames_worker hx]
    by_cases ne : t = .worker s
    · subst ne
      cases own : f.isOwn with
      | false =>
        obtain ⟨y, hy, touched⟩ := h.touched own hx
        rw [frames_worker hy, touched.frames]
      | true =>
        cases h with
        | own f r z x' c chain fs isHere hz step =>
          cases isHere
          rw [hx] at hz
          cases hz
          rw [frames_worker (x := x') (by simp [old]), step.frames_eq]
        | leave r z isHere hz =>
          cases isHere
          rw [hx] at hz
          cases hz
          rw [frames_worker (by simp [old]; rfl)]
        | markFailed => exact frames_worker hx
        | stray => exact frames_worker hx
        | _ => cases own
    · obtain ⟨y, hy, touched⟩ := h.otherWorker ne hx
      rw [frames_worker hy, touched.frames]
  · have none : w.frames (.worker s) = [] := by
      simp [World.frames, List.getElem?_eq_none (Nat.le_of_not_lt old)]
    obtain same | ⟨more, cb, rfl, hy⟩ := h.length_workers
    · left
      rw [none]
      simp [World.frames, List.getElem?_eq_none (show u.workers.length ≤ s by omega)]
    · by_cases last : s = w.workers.length
      · subst last
        exact .inr ⟨rfl, none, frames_worker hy, cb, rfl⟩
      · left
        rw [none]
        simp [World.frames, List.getElem?_eq_none (show u.workers.length ≤ s by omega)]

theorem FrameStep.frames_setFrames (h : FrameStep w t f u fs) (code : w.frames t = f :: rest)
    (gs : List Frame) : (u.setFrames t gs).frames t = gs := by
  cases t with
  | caller n =>
    have hn : n < u.callers.length := by
      rw [h.callers]
      by_contra absent
      simp [World.frames, List.getElem?_eq_none (Nat.le_of_not_lt absent)] at code
    exact frames_caller (by simp [hn])
  | worker s =>
    obtain ⟨x, hx, hf⟩ := worker_of_frames code
    obtain ⟨y, hy, -⟩ := h.workerStep hx hf
    rw [World.setFrames_worker, frames_worker (by simp [hy]; rfl)]

theorem worker_of_setFrames {y : Worker} (h : (u.setFrames t fs).workers[s]? = some y) :
    ∃ z, u.workers[s]? = some z ∧ y = { z with frames := y.frames } := by
  cases t with
  | caller n => exact ⟨y, h, rfl⟩
  | worker r =>
    simp only [World.setFrames_worker, List.getElem?_modify] at h
    obtain ⟨z, hz, rfl⟩ := Option.map_eq_some_iff.mp h
    refine ⟨z, hz, ?_⟩
    split <;> rfl

theorem WorldStep.ran (h : WorldStep w (.run t) v) :
    ∃ f rest fs u, w.frames t = f :: rest ∧ FrameStep w t f u fs ∧
      v = u.setFrames t (fs ++ rest) ∧ v.frames t = fs ++ rest := by
  cases h with
  | caller n f rest fs u h step =>
    have code := frames_caller h
    exact ⟨f, rest, fs, u, code, step, rfl, step.frames_setFrames code _⟩
  | worker s x f rest fs u hx hf step =>
    have code : w.frames (.worker s) = f :: rest := by rw [frames_worker hx, hf]
    exact ⟨f, rest, fs, u, code, step, rfl, step.frames_setFrames code _⟩

theorem frames_setFrames_of_ne {t' : Thread} (other : t ≠ t') (fs : List Frame) :
    (u.setFrames t fs).frames t' = u.frames t' := by
  cases t with
  | caller n =>
    cases t' with
    | caller k =>
      have ne : n ≠ k := fun same => other (same ▸ rfl)
      simp [World.frames, ne]
    | worker s => rfl
  | worker r =>
    cases t' with
    | caller k => rfl
    | worker s =>
      have ne : r ≠ s := fun same => other (same ▸ rfl)
      simp [World.frames, ne]

theorem frames_withWorker_of_ne {r : Nat} {x : Worker} (other : t ≠ .worker r) :
    (w.withWorker r x).frames t = w.frames t := by
  cases t with
  | caller k => rfl
  | worker s =>
    have ne : r ≠ s := fun same => other (same ▸ rfl)
    simp [World.frames, World.withWorker, ne]

/-- What a frame that one thread runs means to the code of any thread. -/
theorem FrameStep.threadStep (step : FrameStep w t f u fs) (code : w.frames t = f :: rest)
    (t' : Thread) : ThreadStep w (.run t) (u.setFrames t (fs ++ rest)) t' (w.frames t')
      ((u.setFrames t (fs ++ rest)).frames t') := by
  by_cases here : t = t'
  · subst here
    rw [step.frames_setFrames code, code]
    exact .run f rest fs u rfl code step rfl
  · rw [frames_setFrames_of_ne here]
    cases t' with
    | caller k =>
      have same : u.frames (.caller k) = w.frames (.caller k) := by
        simp [World.frames, step.callers]
      rw [same]
      exact .same _
    | worker s =>
      obtain same | ⟨rfl, none, one, cb, rfl⟩ := step.otherFrames s
      · rw [same]
        exact .same _
      · rw [none, one]
        exact .started _ cb rest rfl rfl code

/-- What a step means to the code of a thread. -/
theorem WorldStep.threadStep (h : WorldStep w m v) (t : Thread) :
    ThreadStep w m v t (w.frames t) (v.frames t) := by
  cases h with
  | caller n f rest fs u h step => exact step.threadStep (frames_caller h) t
  | worker r x f rest fs u hx hf step =>
    exact step.threadStep (by rw [frames_worker hx, hf]) t
  | call n a h =>
    by_cases here : t = .caller n
    · subst here
      have hn : n < w.callers.length := (List.getElem?_eq_some_iff.mp h).1
      rw [frames_caller h, frames_caller (by simp [hn]; rfl)]
      exact .call n a rfl rfl
    · have same := frames_setFrames_of_ne (u := w) (Ne.symm here) [.script .caller [a]]
      rw [World.setFrames_caller] at same
      rw [same]
      exact .same _
  | release n hn idle held =>
    by_cases here : t = .caller n
    · subst here
      have empty : w.callers[n]? = some [] := by
        rw [List.getElem?_eq_getElem hn, idle _ (List.getElem_mem hn)]
      rw [frames_caller empty, frames_caller (by simp [hn]; rfl)]
      exact .release n rfl rfl
    · have same := frames_setFrames_of_ne (u := { w with gone := true }) (Ne.symm here)
        [.beginShutdown .caller .shutdown]
      rw [World.setFrames_caller] at same
      rw [same]
      exact .same _
  | reply r i reply x task hx ht fits =>
    by_cases here : t = .worker r
    · subst here
      have hr : r < w.workers.length := (List.getElem?_eq_some_iff.mp hx).1
      rw [frames_worker hx, frames_worker (by simp [World.withWorker, hr]; rfl)]
      exact .same _
    · rw [frames_withWorker_of_ne here]
      exact .same _
  | turn r k x x' es hx idle stays step =>
    by_cases here : t = .worker r
    · subst here
      have hr : r < w.workers.length := (List.getElem?_eq_some_iff.mp hx).1
      rw [frames_worker hx, idle, frames_worker (x := x') (by simp [World.withWorker, hr])]
      exact .turn r k x x' es rfl rfl hx idle step
    · change ThreadStep _ _ _ _ _ ((w.withWorker r x').frames t)
      rw [frames_withWorker_of_ne here]
      exact .same _

end Threads

/-! ### Runs -/

/-- A world in which nothing has happened, with some number of callers, observers that react in
some way and a transport or none. -/
def World.Untouched (w : World) : Prop :=
  ∃ n timeout transport reaction kept,
    w = { World.initial n timeout with
      transport := transport, reaction := reaction, kept := kept }

namespace World.Untouched
variable {w : World}

theorem connection (h : w.Untouched) : w.connection = .initial := by
  obtain ⟨n, timeout, transport, reaction, kept, rfl⟩ := h
  rfl

theorem workers (h : w.Untouched) : w.workers = [] := by
  obtain ⟨n, timeout, transport, reaction, kept, rfl⟩ := h
  rfl

theorem log (h : w.Untouched) : w.log = [] := by
  obtain ⟨n, timeout, transport, reaction, kept, rfl⟩ := h
  rfl

theorem frames (h : w.Untouched) (t : Thread) : w.frames t = [] := by
  obtain ⟨n, timeout, transport, reaction, kept, rfl⟩ := h
  cases t with
  | worker s => rfl
  | caller k =>
    simp only [World.frames, World.initial, List.getElem?_replicate]
    split <;> rfl

end World.Untouched

/-- What can be reached by steps that are all allowed. -/
inductive World.ReachesBy (allowed : World → Move → Prop) : World → World → Prop
  | refl (w : World) : ReachesBy allowed w w
  | step {w v u : World} (m : Move) (past : ReachesBy allowed w v) (may : allowed v m)
    (h : v.step m = some u) : ReachesBy allowed w u

namespace World.ReachesBy
variable {allowed : World → Move → Prop} {w v u : World}

theorem trans (h : ReachesBy allowed w v) (k : ReachesBy allowed v u) :
    ReachesBy allowed w u := by
  induction k with
  | refl => exact h
  | step m _ may hm ih => exact .step m ih may hm

theorem of_reaches (h : Reaches w v) : ReachesBy (fun _ _ => True) w v := by
  induction h with
  | refl => exact .refl _
  | step m hm _ ih => exact (ReachesBy.step m (.refl _) trivial hm).trans ih

theorem reaches (h : ReachesBy allowed w v) : Reaches w v := by
  induction h with
  | refl => exact .refl _
  | step m _ _ hm ih => exact ih.trans (.single hm)

theorem mono {allowed' : World → Move → Prop} (h : ReachesBy allowed w v)
    (le : ∀ w m, allowed w m → allowed' w m) : ReachesBy allowed' w v := by
  induction h with
  | refl => exact .refl _
  | step m _ may hm ih => exact .step m ih (le _ _ may) hm

/-- What every allowed step keeps is kept by a run. -/
theorem keeps {P : World → Prop} (h : ReachesBy allowed w v) (first : P w)
    (step : ∀ w m v, P w → allowed w m → WorldStep w m v → P v) : P v := by
  induction h with
  | refl => exact first
  | step m _ may hm ih => exact step _ m _ ih may (worldStep_of_step hm)

end World.ReachesBy

/-- Some steps after one another, each checked before it is taken. -/
def World.checkedSteps (check : World → Move → Bool) (w : World) : List Move → Option World
  | [] => some w
  | m :: ms => if check w m then (w.step m).bind fun w => w.checkedSteps check ms else none

/-- Steps that were checked make a run. -/
theorem World.ReachesBy.of_checkedSteps {allowed : World → Move → Prop}
    {check : World → Move → Bool} (sound : ∀ w m, check w m = true → allowed w m)
    {w v : World} {ms : List Move} (h : w.checkedSteps check ms = some v) :
    ReachesBy allowed w v := by
  induction ms generalizing w with
  | nil =>
    cases h
    exact .refl _
  | cons m ms ih =>
    rw [World.checkedSteps] at h
    split at h
    · rename_i ok
      obtain ⟨u, hu, rest⟩ := Option.bind_eq_some_iff.mp h
      exact (ReachesBy.step m (.refl w) (sound w m ok) hu).trans (ih rest)
    · cases h

/-- What every step keeps is kept by a run. -/
theorem World.Reaches.keeps {P : World → Prop} {w v : World} (h : Reaches w v) (first : P w)
    (step : ∀ w m v, P w → WorldStep w m v → P v) : P v :=
  (ReachesBy.of_reaches h).keeps first fun w m v hp _ hs => step w m v hp hs

/-- What every worker has that was just started, and every step keeps, it has wherever a run
leads. -/
theorem World.Reaches.keepsWorker {P : Worker → Prop} {w v : World} {s : Nat} {y : Worker}
    (h : Reaches w v) (first : w.Untouched) (hy : v.workers[s]? = some y)
    (new : ∀ cb, P (Worker.new cb))
    (step : ∀ u m x z, Reaches w u → u.workers[s]? = some x → P x → WorkerStep u m s x z → P z) :
    P y := by
  have run := ReachesBy.of_reaches h
  induction run generalizing y with
  | refl =>
    rw [first.workers] at hy
    cases hy
  | step m past _ now ih =>
    obtain ⟨x, hx, worker⟩ | ⟨-, t, cb, rest, -, -, rfl⟩ := (worldStep_of_step now).cameFrom hy
    · exact step _ m x y past.reaches hx (ih past.reaches hx) worker
    · exact new cb

end RemoteNode.Session
