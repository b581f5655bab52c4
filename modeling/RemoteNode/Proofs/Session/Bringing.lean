import RemoteNode.Proofs.Session.Histories
import RemoteNode.Proofs.Session.Results

/-! How operations come to workers. An operation is brought to the worker that serves when it is
called, and it waits in the queue of that worker; nobody else gets a job. -/

namespace RemoteNode.Session

section Queues
variable {w u v : World} {m : Move} {t : Thread} {s : Nat} {x y : Worker} {f : Frame}
  {fs : List Frame}

theorem FrameStep.queue (step : FrameStep w t f u fs) (hx : w.workers[s]? = some x)
    (hy : u.workers[s]? = some y) :
    y.queue = x.queue ∨ ∃ j, f = .enqueue s j ∧ y.queue = x.queue ++ [j] := by
  have same {l : List Worker} (hl : l = w.workers) (hy : l[s]? = some y) : y.queue = x.queue := by
    rw [hl, hx] at hy
    cases hy
    rfl
  have modified {r : Nat}
      (hy : (w.workers.modify r fun x => { x with stopped := true })[s]? = some y) :
      y.queue = x.queue := by
    simp only [List.getElem?_modify, hx, Option.map_eq_map, Option.map_some,
      Option.some.injEq] at hy
    rw [← hy]
    split <;> rfl
  have put {r : Nat} {z x' : Worker} (hz : w.workers[r]? = some z) (keeps : x'.queue = z.queue)
      (hy : (w.workers.set r x')[s]? = some y) : y.queue = x.queue := by
    by_cases hr : r = s
    · subst hr
      rw [hx] at hz
      cases hz
      rw [List.getElem?_set_self (List.getElem?_eq_some_iff.mp hx).1] at hy
      cases hy
      exact keeps
    · rw [List.getElem?_set_ne hr, hx] at hy
      cases hy
      rfl
  cases step with
  | start cb calm state =>
    left
    have there : s < w.workers.length := (List.getElem?_eq_some_iff.mp hx).1
    cases held : w.connection.worker with
    | none =>
      simp only [held, Option.elim_none, List.getElem?_append_left there] at hy
      exact same rfl hy
    | some r =>
      simp only [held, Option.elim_some] at hy
      rw [List.getElem?_append_left (by simpa using there)] at hy
      exact modified hy
  | signal r => exact .inl (modified hy)
  | enqueue r j z hz isOpen =>
    simp only [List.getElem?_modify, hx, Option.map_eq_map, Option.map_some,
      Option.some.injEq] at hy
    rw [← hy]
    by_cases hr : r = s
    · subst hr
      exact .inr ⟨j, rfl, by simp⟩
    · exact .inl (by simp [hr])
  | own f r z x' c chain fs isHere hz own => exact .inl (put hz (by cases own <;> rfl) hy)
  | leave r z isHere hz =>
    refine .inl (put hz ?_ hy)
    rfl
  | init | operate | register | unregister | unregisterAwait | notifyNobody | notify | delivered
  | deliver =>
    refine .inl (same ?_ hy)
    simp [World.draw, World.record, World.setRegistry_eq, World.setDelivery_eq]
  | _ => exact .inl (same rfl hy)

/-- The queue of a worker that takes no turn is left as it is, or a job is brought to its end. -/
theorem WorldStep.queue (step : WorldStep w m v) (hx : w.workers[s]? = some x)
    (hy : v.workers[s]? = some y) (away : ∀ i, m ≠ .turn s i) :
    y.queue = x.queue ∨ ∃ t j rest, m = .run t ∧ w.frames t = .enqueue s j :: rest ∧
      y.queue = x.queue ++ [j] := by
  cases m with
  | run t =>
    obtain ⟨f, rest, fs, u, code, ran, rfl, -⟩ := step.ran
    obtain ⟨z, hz, e⟩ := worker_of_setFrames hy
    have queue : y.queue = z.queue := by rw [e]
    obtain same | ⟨j, rfl, more⟩ := ran.queue hx hz
    · exact .inl (queue.trans same)
    · exact .inr ⟨t, j, rest, rfl, code, queue.trans more⟩
  | call | release =>
    cases step
    rw [hx] at hy
    cases hy
    exact .inl rfl
  | reply r i reply =>
    cases step with
    | reply r i reply z task hz =>
      left
      by_cases hr : r = s
      · subst hr
        rw [hx] at hz
        cases hz
        simp only [World.withWorker,
          List.getElem?_set_self (List.getElem?_eq_some_iff.mp hx).1, Option.some.injEq] at hy
        rw [← hy]
      · simp only [World.withWorker, List.getElem?_set_ne hr, hx, Option.some.injEq] at hy
        rw [hy]
  | turn r i =>
    have other : r ≠ s := fun same => away i (same ▸ rfl)
    cases step with
    | turn r i z y' es hz =>
      simp only [World.withWorker, List.getElem?_set_ne other, hx, Option.some.injEq] at hy
      exact .inl (by rw [hy])

/-- A job in the queue of a worker that takes no turn was there before, or has just been brought. -/
theorem WorldStep.queued (step : WorldStep w m v) (hx : w.workers[s]? = some x)
    (hy : v.workers[s]? = some y) (away : ∀ i, m ≠ .turn s i) {j : Job} (queued : j ∈ y.queue) :
    j ∈ x.queue ∨ ∃ t rest, m = .run t ∧ w.frames t = .enqueue s j :: rest := by
  obtain same | ⟨t, j', rest, here, code, more⟩ := step.queue hx hy away
  · exact .inl (same ▸ queued)
  · rw [more] at queued
    rcases List.mem_append.mp queued with old | new
    · exact .inl old
    · rw [List.mem_singleton.mp new]
      exact .inr ⟨t, rest, here, code⟩

end Queues

section Jobs
variable {w u v : World} {m : Move} {t : Thread} {s : Nat} {x y : Worker} {f : Frame}
  {fs rest : List Frame} {limit : Exchange.Timeout} {i : Turn} {es : List Entry} {task : Task}

/-- The worker has no job. -/
def Worker.IsJobless (x : Worker) : Prop := x.queue = [] ∧ ∀ task ∈ x.tasks, task.isRefresh = true

theorem TurnStep.jobless (step : TurnStep limit s x i y es) (jobless : x.IsJobless) :
    y.IsJobless := by
  constructor
  · cases step with
    | pollStopped task r rest =>
      obtain ⟨q, fs, same⟩ := ({ x with runnable := rest } : Worker).cancelled_eq task
      rw [same]
      exact jobless.1
    | interrupt n task =>
      obtain ⟨q, fs, same⟩ :=
        ({ x with waiting := x.waiting.eraseIdx n } : Worker).cancelled_eq task
      rw [same]
      exact jobless.1
    | beginJob j p rest =>
      obtain ⟨r, same⟩ | same := ({ x with runnable := rest } : Worker).advanced_cases j p
      all_goals
        rw [same]
        exact jobless.1
    | answered task r rest =>
      obtain ⟨rs, fs, same⟩ := ({ x with runnable := rest } : Worker).answered_eq limit task r
      rw [same]
      exact jobless.1
    | take j rest live queue | reject j rest closed queue =>
      rw [jobless.1] at queue
      cases queue
    | _ => exact jobless.1
  · intro task here
    obtain old | ⟨rfl, -⟩ | ⟨-, ⟨task', there, job⟩ | ⟨-, queue⟩⟩ := step.source here
    · exact jobless.2 task old
    · rfl
    · rw [jobless.2 task' there] at job
      cases job
    · exact absurd jobless.1 queue

/-- A worker without a job has none unless one has just been brought. -/
theorem WorldStep.jobless (step : WorldStep w m v) (hx : w.workers[s]? = some x)
    (hy : v.workers[s]? = some y) (jobless : x.IsJobless) :
    y.IsJobless ∨ ∃ t j rest, m = .run t ∧ w.frames t = .enqueue s j :: rest := by
  obtain ⟨i, es, -, -, turn, -⟩ | ⟨away, -⟩ := step.turn_or_quiet hx hy
  · exact .inl (turn.jobless jobless)
  · by_cases brought : ∃ t j rest, m = .run t ∧ w.frames t = .enqueue s j :: rest
    · exact .inr brought
    · left
      have queue : y.queue = [] := by
        refine List.eq_nil_iff_forall_not_mem.mpr fun j queued => ?_
        obtain old | ⟨t, rest, here, code⟩ := step.queued hx hy away queued
        · rw [jobless.1] at old
          cases old
        · exact brought ⟨t, j, rest, here, code⟩
      obtain ⟨y', hy', worker⟩ := step.workerStep hx
      rw [hy] at hy'
      cases hy'
      refine ⟨queue, fun task here => ?_⟩
      cases worker with
      | others y away touched => exact jobless.2 task (touched.tasks ▸ here)
      | foreign f rest fs u y run hf ran notOwn touched =>
        exact jobless.2 task (touched.tasks ▸ here)
      | own f rest fs x' c chain run hf own =>
        exact (own.tasks here).elim (jobless.2 task) id
      | markFailed | leave => exact jobless.2 task here
      | reply n r task' run waits => exact jobless.2 task (mem_tasks_of_reply waits here)
      | turn i y es run => exact absurd run (away i)

end Jobs

namespace World

/-- The worker whose handle is held was started, and so was every worker that an operation is
brought to. -/
structure Peopled (w : World) : Prop where
  held : ∀ s, w.connection.worker = some s → s < w.workers.length
  brought : ∀ t s j, .enqueue s j ∈ w.frames t → s < w.workers.length

section Bringing
variable {w v : World} {m : Move} {t : Thread} {s : Nat}

/-- An operation is brought to the worker that serves. -/
theorem enqueue_source {j : Job} (step : WorldStep w m v) (here : .enqueue s j ∈ v.frames t) :
    .enqueue s j ∈ w.frames t ∨ ∃ rest, m = .run t ∧ w.frames t = .dispatch j :: rest ∧
      w.connection.server = .ok s := by
  obtain old | ⟨f, rest, u, fs, run, code, ran, pushed⟩ := (step.threadStep t).source rfl here
  · exact .inl old
  · cases ran with
    | dispatch j' r served =>
      simp only [List.mem_singleton, Frame.enqueue.injEq] at pushed
      obtain ⟨rfl, rfl⟩ := pushed
      exact .inr ⟨rest, run, code, served⟩
    | own f s x x' c chain fs isHere hx own => cases own <;> simp at pushed
    | _ => simp at pushed

theorem worker_of_server {c : Connection} (served : c.server = .ok s) :
    c.stopping = false ∧ c.state = .initialized ∧ c.worker = some s := by
  rw [Connection.server] at served
  split at served
  · cases served
  · rename_i calm
    split at served
    · rename_i r state held
      cases served
      exact ⟨by simpa using calm, state, held⟩
    · cases served

namespace Peopled

theorem of_untouched (h : w.Untouched) : w.Peopled := by
  constructor
  · intro s held
    rw [h.connection] at held
    cases held
  · intro t s j here
    rw [h.frames] at here
    cases here

theorem step (h : w.Peopled) (step : WorldStep w m v) : v.Peopled := by
  have more : w.workers.length ≤ v.workers.length := by
    obtain same | ⟨more, -⟩ := step.length_workers <;> omega
  constructor
  · intro s held
    by_cases before : w.connection.worker = some s
    · exact Nat.lt_of_lt_of_le (h.held s before) more
    · obtain same | ⟨t, f, rest, rfl, code, change⟩ := step.connectionStep
      · exact absurd (same ▸ held) before
      · generalize hc : v.connection = c at change held
        cases change with
        | start cb calm state =>
          obtain ⟨f', rest', fs, u, code', ran, rfl, -⟩ := step.ran
          rw [code] at code'
          obtain ⟨rfl, rfl⟩ := List.cons.inj code'
          have new : s = w.workers.length := (Option.some.inj held).symm
          have grown : u.workers.length = w.workers.length + 1 := by
            cases ran with
            | start => cases w.connection.worker <;> simp
            | startStopping cb stopping => simp [calm] at stopping
            | startAgain cb calm other => exact absurd state other
            | own f s x x' c chain fs isHere hx own => cases own
            | stray f own => cases own
          have kept : (u.setFrames t (fs ++ rest)).workers.length = u.workers.length := by
            cases t <;> simp
          omega
        | take | begin => cases held
        | _ => exact absurd held before
  · intro t s j here
    obtain old | ⟨rest, rfl, code, served⟩ := enqueue_source step here
    · exact Nat.lt_of_lt_of_le (h.brought t s j old) more
    · exact Nat.lt_of_lt_of_le (h.held s (worker_of_server served).2.2) more

end Peopled

end Bringing

end World

end RemoteNode.Session
