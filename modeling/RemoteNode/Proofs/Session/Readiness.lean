import RemoteNode.Proofs.Session.Bringing

/-! Who is ready. In a run in which every worker that shuts itself down has settled before, an
operation is only brought to a worker that has become ready, and only such workers have jobs. -/

namespace RemoteNode.Session

section Readiness
variable {w v : World} {m : Move} {s : Nat} {x y : Worker}

/-- A worker that stands for an initialized connection has become ready. -/
theorem Worker.hasPassed_of_stands (x : Worker) (stands : x.stands = .initialized) :
    x.HasPassed := by
  rw [Worker.stands] at stands
  rw [Worker.HasPassed, ← mem_ownCode (f := .goLive) rfl]
  generalize x.phase = p, ownCode x.frames = o at stands ⊢
  unfold standsFor at stands
  split at stands <;> simp_all

namespace World

/-- A worker that has ended without being told to stop had never become ready. -/
theorem Trace.unready {allowed : World → Move → Prop} {w₀ u : World} {h : List (World × Move)}
    {z : Worker} (first : w₀.Untouched) (run : Trace allowed w₀ h w)
    (hx : w.workers[s]? = some x) (ended : x.phase = .ended) (going : x.stopped = false)
    (past : (u, m) ∈ h) (hz : u.workers[s]? = some z) : ¬z.HasPassed := by
  intro passed
  obtain ⟨h', -, before, later⟩ := run.split past
  have reached := before.reachesBy.reaches
  have drained : u.Drained := .of_reaches first reached
  obtain ⟨course, passed | ⟨-, stopped, -⟩⟩ :=
    drained.wasReady (.of_reaches first reached) hz (.inl passed) later hx
  · exact not_passed_of_ended course ended passed
  · rw [going] at stopped
    cases stopped

/-- Every operation under way to a worker comes to one that has become ready, and no other worker
has a job. -/
structure Prompt (w : World) : Prop where
  brought : ∀ t s j, .enqueue s j ∈ w.frames t → ∃ x, w.workers[s]? = some x ∧ x.WasReady
  held : ∀ (s : Nat) (x : Worker), w.workers[s]? = some x → x.IsJobless ∨ x.WasReady

namespace Prompt

theorem of_untouched (first : w.Untouched) : w.Prompt := by
  constructor
  · intro t s j inCode
    rw [first.frames] at inCode
    cases inCode
  · intro s x hx
    rw [first.workers] at hx
    cases hx

theorem step (h : w.Prompt) (hs : w.Sound) (owned : w.Owned) (drained : w.Drained)
    (step : WorldStep w m v) : v.Prompt := by
  have stays (s : Nat) (x : Worker) (hx : w.workers[s]? = some x) (ready : x.WasReady) :
      ∃ y, v.workers[s]? = some y ∧ y.WasReady := by
    obtain ⟨y, hy, worker⟩ := step.workerStep hx
    exact ⟨y, hy, wasReady_step (hs.courses s x hx) (drained s x hx) worker ready⟩
  constructor
  · intro t s j inCode
    obtain old | ⟨rest, -, -, served⟩ := enqueue_source step inCode
    · obtain ⟨x, hx, ready⟩ := h.brought t s j old
      exact stays s x hx ready
    · -- it is brought to the worker that stands for the connection
      obtain ⟨-, state, held⟩ := worker_of_server served
      obtain ⟨-, -, x, hx, -, stands⟩ := owned.held s held
      exact stays s x hx (.inl (x.hasPassed_of_stands (stands.trans state)))
  · intro s y hy
    obtain ⟨x, hx, -⟩ | ⟨-, t, cb, rest, -, -, rfl⟩ := step.cameFrom hy
    · have ready (before : x.WasReady) : y.IsJobless ∨ y.WasReady := by
        obtain ⟨z, hz, after⟩ := stays s x hx before
        rw [hy] at hz
        cases hz
        exact .inr after
      obtain jobless | before := h.held s x hx
      · obtain jobless | ⟨t, j, rest, -, code⟩ := step.jobless hx hy jobless
        · exact .inl jobless
        · obtain ⟨z, hz, before⟩ := h.brought t s j (by rw [code]; exact List.mem_cons_self ..)
          rw [hx] at hz
          cases hz
          exact ready before
      · exact ready before
    · exact .inl ⟨rfl, fun task here => nomatch here⟩

/-- In an orderly run operations are brought only to workers that have become ready. -/
theorem of_reaches (first : w.Untouched) (run : ReachesBy Orderly w v) : v.Prompt := by
  have all := run.keeps (P := fun w => w.Sound ∧ w.Owned ∧ w.Drained ∧ w.Prompt)
    ⟨.of_untouched first, .of_untouched first, .of_reaches first (.refl _), .of_untouched first⟩
    fun w m v ⟨sound, owned, drained, prompt⟩ ok step =>
      ⟨sound.step step, owned.step sound ok step, drained.step sound step,
        prompt.step sound owned drained step⟩
  exact all.2.2.2

/-- Then a worker that has an operation or is brought one has become ready. -/
theorem wasReady (h : w.Prompt) {j : Job} (hx : w.workers[s]? = some x)
    (has : x.Holds j ∨ ∃ t, .enqueue s j ∈ w.frames t) : x.WasReady := by
  obtain holds | ⟨t, sending⟩ := has
  · obtain ⟨queue, refreshes⟩ | ready := h.held s x hx
    · exfalso
      obtain queued | ⟨p, task⟩ := holds
      · rw [queue] at queued
        cases queued
      · cases refreshes _ task
    · exact ready
  · obtain ⟨z, hz, ready⟩ := h.brought t s j sending
    rw [hx] at hz
    cases hz
    exact ready

end Prompt

end World

end Readiness

end RemoteNode.Session
