import RemoteNode.Proofs.Session.Pledges

/-! How a worker ends. One that has become ready ends only when it has no job and no task left, and
a job that it was given has its result by then. -/

namespace RemoteNode.Session

namespace Worker

/-- The worker has no job and no task left. -/
def IsDone (x : Worker) : Prop := x.queue = [] ∧ x.runnable = [] ∧ x.waiting = []

/-- The worker has reported that it is ready, it was heard, and it has not ended. -/
def HasPassed (x : Worker) : Prop := x.phase = .live ∨ x.phase = .closed ∨ .goLive ∈ x.frames

/-- The worker has become ready. If it has ended since, it was told to stop and has nothing left. -/
def WasReady (x : Worker) : Prop :=
  x.HasPassed ∨ x.phase = .ended ∧ x.stopped = true ∧ x.IsDone ∧ x.frames = []

end Worker

section Ends
variable {w v : World} {m : Move} {s : Nat} {x x' y : Worker} {f : Frame} {fs rest : List Frame}
  {c : Connection} {chain : ChainView} {limit : Exchange.Timeout} {k : Turn} {es : List Entry}

theorem leave_not_pushed (h : x.OnCourse) (hf : x.frames = f :: rest)
    (step : OwnStep w x f x' c chain fs) (passed : x.phase ≠ .opening) : .leave ∉ fs := by
  have course := h.course
  rw [hf, ownCode_own step.isOwn] at course
  cases step with
  | noTransport =>
    generalize x.phase = p, x.refreshing = q, x.refreshes = n, ownCode rest = o at course passed
    cases course with
    | connect => exact absurd rfl passed
    | refresh p fs stays code => cases code
  | markRefused =>
    generalize x.phase = p, x.refreshing = q, x.refreshes = n, ownCode rest = o at course passed
    cases course with
    | mark => exact absurd rfl passed
    | refresh p fs stays code => cases code
  | lost e opening => exact absurd opening passed
  | _ => simp

/-- A worker that is about to leave has no other code of its own. -/
theorem only_leave (h : x.OnCourse) (passed : x.HasPassed) (leaves : .leave ∈ x.frames) :
    x.phase = .closed ∧ ownCode x.frames = [.leave] := by
  have course := h.course
  have inCode := (mem_ownCode (f := .leave) rfl).mpr leaves
  have goes : .goLive ∈ x.frames → .goLive ∈ ownCode x.frames := (mem_ownCode rfl).mpr
  rw [Worker.HasPassed] at passed
  generalize x.phase = p, x.refreshing = q, x.refreshes = n, ownCode x.frames = o at *
  cases course with
  | refresh p fs stays code => cases code <;> simp at inCode
  | finish => exact ⟨rfl, rfl⟩
  | lost | failed | refused | leave =>
    obtain live | closed | pending := passed
    · cases live
    · cases closed
    · simpa using goes pending
  | _ => simp at inCode

/-- A worker that has ended has not just become ready. -/
theorem not_passed_of_ended (h : x.OnCourse) (ended : x.phase = .ended) : ¬x.HasPassed := by
  rintro (live | closed | pending)
  · rw [ended] at live
    cases live
  · rw [ended] at closed
    cases closed
  · have inCode := (mem_ownCode (f := .goLive) rfl).mpr pending
    have course := h.course
    generalize x.phase = p, x.refreshing = q, x.refreshes = n, ownCode x.frames = o at *
    subst ended
    cases course with
    | refresh p fs stays code => exact stays rfl
    | ended => cases inCode
    | _ => simp at inCode

theorem TurnStep.isDone (step : TurnStep limit s x k y es) (idle : x.frames = [])
    (leaves : .leave ∈ y.frames) : y.IsDone := by
  have cancelled {z : Worker} {task : Task} : .leave ∉ (z.cancelled task).frames := by
    cases task with
    | job j p => simp [Worker.cancelled]
    | refresh g =>
      rw [Worker.cancelled]
      split <;> simp
  cases step with
  | pollStopped | interrupt => exact absurd leaves cancelled
  | beginJob j p rest =>
    obtain ⟨r, e⟩ | e := ({ x with runnable := rest } : Worker).advanced_cases j p <;>
      rw [e] at leaves <;> simp [idle] at leaves
  | answered task r rest =>
    cases task with
    | job j p =>
      obtain ⟨q, e⟩ | ⟨q, e⟩ :=
        ({ x with runnable := rest } : Worker).answered_job_cases limit j p r <;>
          rw [e] at leaves <;> simp [idle] at leaves
    | refresh g =>
      cases r with
      | panic => simp [Worker.answered] at leaves
      | arrival a =>
        have code := (refreshCode_answered g limit a).1
        change Frame.leave ∈ World.refreshAnswered g limit a at leaves
        generalize World.refreshAnswered g limit a = fs at code leaves
        cases code <;> simp at leaves
  | finish closed queue runnable waiting spent => exact ⟨queue, runnable, waiting⟩
  | _ => simp [idle] at leaves

/-- A closed worker that is about to leave has nothing left. -/
def World.Drained (w : World) : Prop :=
  ∀ (s : Nat) (x : Worker), w.workers[s]? = some x → x.phase = .closed → .leave ∈ x.frames →
    x.IsDone

theorem Worker.Touched.isDone (touched : x.Touched y) (done : x.IsDone)
    (closed : x.isClosed = true) : y.IsDone := by
  obtain ⟨queue, runnable, waiting⟩ := done
  refine ⟨?_, touched.runnable.trans runnable, touched.waiting.trans waiting⟩
  obtain same | ⟨isOpen, -⟩ := touched.queue
  · exact same.trans queue
  · rw [closed] at isOpen
    cases isOpen

theorem drained_step (h : x.OnCourse) (done : x.phase = .closed → .leave ∈ x.frames → x.IsDone)
    (step : WorkerStep w m s x y) (closed : y.phase = .closed) (leaves : .leave ∈ y.frames) :
    y.IsDone := by
  cases step with
  | others y away touched =>
    have closed : x.phase = .closed := touched.phase.symm.trans closed
    exact touched.isDone (done closed (touched.frames ▸ leaves)) (by simp [Worker.isClosed, closed])
  | foreign f rest fs u y here hf step notOwn touched =>
    have closed : x.phase = .closed := touched.phase.symm.trans closed
    have before : .leave ∈ x.frames := by
      rw [hf]
      rcases List.mem_append.mp leaves with pushed | left
      · cases step.foreign notOwn _ pushed
      · exact List.mem_cons_of_mem _ left
    exact touched.isDone (done closed before) (by simp [Worker.isClosed, closed])
  | own f rest fs x' c chain here hf step =>
    have same : x.phase = .closed := by cases step <;> first | exact closed | cases closed
    exfalso
    -- it would have to be about to leave already, with other code of its own before
    have left : .leave ∈ x.frames := by
      rw [hf]
      rcases List.mem_append.mp leaves with pushed | left
      · exact absurd pushed (leave_not_pushed h hf step (by simp [same]))
      · exact List.mem_cons_of_mem _ left
    have code := (only_leave h (.inr (.inl same)) left).2
    rw [hf, ownCode_own step.isOwn] at code
    obtain ⟨rfl, -⟩ := List.cons.inj code
    cases step
  | markFailed rest here hf => exact done closed (by rw [hf]; exact List.mem_cons_of_mem _ leaves)
  | leave => cases closed
  | reply i r task here waits =>
    obtain ⟨-, -, waiting⟩ := done closed leaves
    simp [waiting] at waits
  | turn k y es here idle stays step => exact step.isDone idle leaves

/-- A worker that has become ready stays so until it was told to stop and ends with nothing left. -/
theorem wasReady_step (h : x.OnCourse) (done : x.phase = .closed → .leave ∈ x.frames → x.IsDone)
    (step : WorkerStep w m s x y) (ready : x.WasReady) : y.WasReady := by
  obtain passed | ⟨ended, stopped, empty, idle⟩ := ready
  · have later (f : Frame) (rest fs : List Frame) (hf : x.frames = f :: rest) (ne : f ≠ .goLive)
        (pending : .goLive ∈ x.frames) : .goLive ∈ fs ++ rest := by
      rw [hf] at pending
      rcases List.mem_cons.mp pending with same | left
      · exact absurd same.symm ne
      · exact List.mem_append_right _ left
    cases step with
    | others y away touched =>
      left
      rwa [Worker.HasPassed, touched.phase, touched.frames]
    | foreign f rest fs u y here hf step notOwn touched =>
      left
      rw [Worker.HasPassed, touched.phase]
      exact passed.imp_right fun h => h.imp_right (later f rest fs hf (by rintro rfl; cases notOwn))
    | own f rest fs x' c chain here hf step =>
      left
      cases step with
      | goLive => exact .inl rfl
      | _ => exact passed.imp_right fun h => h.imp_right (later _ rest _ hf (by simp))
    | markFailed rest here hf =>
      exact .inl (passed.imp_right fun h => h.imp_right (later _ rest [] hf (by simp)))
    | leave rest here hf =>
      have leaves : .leave ∈ x.frames := by rw [hf]; exact List.mem_cons_self ..
      obtain ⟨closed, code⟩ := only_leave h passed leaves
      refine .inr ⟨rfl, h.closed closed, done closed leaves, ?_⟩
      rw [hf, ownCode_own rfl] at code
      -- nothing is below its own code
      by_contra more
      have bottom := h.bottom (rest.getLast more)
        (by rw [hf, List.getLast?_cons, List.getLast?_eq_some_getLast more]; rfl)
      have foreign : (rest.getLast more).isOwn = false := by
        by_contra own
        have := (mem_ownCode (by simpa using own)).mpr (List.getLast_mem more)
        rw [(List.cons.inj code).2] at this
        cases this
      rw [hf, ownCode_own rfl] at bottom
      cases bottom foreign
    | reply => exact .inl passed
    | turn k y es here idle stays step =>
      left
      obtain live | closed | pending := passed
      · obtain same | ⟨-, closed, -⟩ := step.same.2.2.2
        · exact .inl (same.trans live)
        · exact .inr (.inl closed)
      · obtain same | ⟨live, -⟩ := step.same.2.2.2
        · exact .inr (.inl (same.trans closed))
        · rw [closed] at live
          cases live
      · rw [idle] at pending
        cases pending
  · right
    have closed : x.isClosed = true := by simp [Worker.isClosed, ended]
    have stays := step.stopped stopped
    cases step with
    | others y away touched =>
      exact ⟨touched.phase.trans ended, stays, touched.isDone empty closed,
        touched.frames.trans idle⟩
    | foreign f rest fs u y here hf | own f rest fs x' c chain here hf | markFailed rest here hf
    | leave rest here hf =>
      rw [idle] at hf
      cases hf
    | reply i r task here waits => simp [empty.2.2] at waits
    | turn k y es here idle stays => exact absurd ended stays

end Ends

namespace World
variable {w v : World} {m : Move} {s k : Nat} {x y : Worker}

theorem Drained.step (h : w.Drained) (hs : w.Sound) (step : WorldStep w m v) : v.Drained := by
  intro s y hy closed leaves
  obtain ⟨x, hx, worker⟩ | ⟨-, t, cb, rest, -, -, rfl⟩ := step.cameFrom hy
  · exact drained_step (hs.courses s x hx) (h s x hx) worker closed leaves
  · cases closed

theorem Drained.of_reaches (first : w.Untouched) (run : w.Reaches v) : v.Drained := by
  have all := run.keeps (P := fun w => w.Sound ∧ w.Drained) ?_ ?_
  · exact all.2
  · refine ⟨.of_untouched first, fun s x hx => ?_⟩
    rw [first.workers] at hx
    cases hx
  · rintro w m v ⟨sound, drained⟩ step
    exact ⟨sound.step step, drained.step sound step⟩

/-- Wherever a run leads from a worker that has become ready, it was. -/
theorem Drained.wasReady (h : w.Drained) (hs : w.Sound) (hx : w.workers[s]? = some x)
    (ready : x.WasReady) (run : w.Reaches v) (hy : v.workers[s]? = some y) :
    y.OnCourse ∧ y.WasReady := by
  have all := run.keeps (P := fun v => v.Sound ∧ v.Drained ∧ ∃ y, v.workers[s]? = some y ∧
    y.WasReady) ⟨hs, h, x, hx, ready⟩
    fun u m v ⟨hs, h, z, hz, ready⟩ step => by
      obtain ⟨y, hy, worker⟩ := step.workerStep hz
      exact ⟨hs.step step, h.step hs step, y, hy,
        wasReady_step (hs.courses s z hz) (h s z hz) worker ready⟩
  obtain ⟨hs, -, z, hz, ready⟩ := all
  rw [hy] at hz
  cases hz
  exact ⟨hs.courses s y hy, ready⟩

theorem Drained.ended (h : w.Drained) (hs : w.Sound) (hx : w.workers[s]? = some x)
    (ready : x.WasReady) (run : w.Reaches v) (hy : v.workers[s]? = some y)
    (ended : y.phase = .ended) : y.IsDone ∧ y.frames = [] := by
  obtain ⟨course, passed | ⟨-, -, done⟩⟩ := h.wasReady hs hx ready run hy
  · exact absurd passed (not_passed_of_ended course ended)
  · exact done

/-- A worker that was told to stop and has nothing to run takes a turn until it has ended. -/
theorem exists_turn (hs : w.Sound) (hx : w.workers[s]? = some x) (idle : x.frames = [])
    (stopped : x.stopped = true) (stays : x.phase ≠ .ended) :
    ∃ k, (w.step (.turn s k)).isSome = true := by
  have free : x.isIdle = true := by simp [Worker.isIdle, idle, stays]
  cases hr : x.runnable with
  | cons a rest => exact ⟨.poll, by simp [World.step, World.turn, hx, free, World.poll, hr]⟩
  | nil =>
    cases hw : x.waiting with
    | cons task rest =>
      exact ⟨.interrupt 0, by simp [World.step, World.turn, hx, free, World.interrupt, stopped, hw]⟩
    | nil =>
      have course := (hs.courses s x hx).course
      have none : x.refreshes = 0 := by simp [Worker.refreshes, Worker.tasks, hr, hw]
      rw [idle, none] at course
      cases hp : x.phase with
      | opening =>
        rw [hp] at course
        generalize x.refreshing = q at course
        cases course with
        | refresh p fs stays code => cases code
        | asleep p h | spent p h => rcases h with h | h <;> cases h
      | live => exact ⟨.close, by simp [World.step, World.turn, hx, free, World.close, hp, stopped]⟩
      | closed =>
        cases hq : x.queue with
        | cons j rest =>
          exact ⟨.reject, by simp [World.step, World.turn, hx, free, World.reject, hp, hq]⟩
        | nil =>
          rw [hp] at course
          generalize ha : x.refreshing = q at course
          cases course with
          | refresh p fs stays code => cases code
          | asleep =>
            exact ⟨.wake, by simp [World.step, World.turn, hx, free, World.wake, ha, stopped]⟩
          | spent =>
            exact ⟨.finish, by
              simp [World.step, World.turn, hx, free, World.finish, hp, hq, hr, hw, ha]⟩
      | ended => exact absurd hp stays

end World

end RemoteNode.Session
