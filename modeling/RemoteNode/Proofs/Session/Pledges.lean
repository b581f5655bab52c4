import RemoteNode.Proofs.Session.Handover

/-! What a callback is certain to be given. Once its outcome is decided, no step decides otherwise
and no request is sent for it any more; it is in one place until it is called, and it is called
once. -/

namespace RemoteNode.Session

section Places
variable {α : Type} {l : List α} {i n k : Nat} {x y : α}

theorem count_le_flatMap (g : α → List Nat) (h : l[i]? = some x) :
    (g x).count k ≤ (l.flatMap g).count k := by
  obtain ⟨hi, rfl⟩ := List.getElem?_eq_some_iff.mp h
  obtain ⟨before, after, e⟩ := List.append_of_mem (List.getElem_mem hi)
  generalize l[i] = x at e
  rw [e, List.flatMap_append, List.flatMap_cons]
  simp only [List.count_append]
  omega

theorem count_two_le_flatMap (g : α → List Nat) (hx : l[i]? = some x) (hy : l[n]? = some y)
    (ne : i ≠ n) : (g x).count k + (g y).count k ≤ (l.flatMap g).count k := by
  induction l generalizing i n with
  | nil => simp at hx
  | cons a l ih =>
    rw [List.flatMap_cons, List.count_append]
    cases i with
    | zero =>
      cases n with
      | zero => exact absurd rfl ne
      | succ n =>
        simp only [List.getElem?_cons_zero, Option.some.injEq, List.getElem?_cons_succ] at hx hy
        subst hx
        have := count_le_flatMap (k := k) g hy
        omega
    | succ i =>
      cases n with
      | zero =>
        simp only [List.getElem?_cons_zero, Option.some.injEq, List.getElem?_cons_succ] at hx hy
        subst hy
        have := count_le_flatMap (k := k) g hx
        omega
      | succ n =>
        simp only [List.getElem?_cons_succ] at hx hy
        have := ih hx hy (by omega)
        omega

end Places

section Outstanding
variable {w : World} {t : Thread} {f : Frame} {s r k : Nat} {x y : Worker} {j : Job}

theorem mem_ticketsOf {fs : List Frame} (h : f ∈ fs) (ticket : f.ticket? = some k) :
    k ∈ ticketsOf fs := List.mem_filterMap.mpr ⟨f, h, ticket⟩

theorem mem_jobTickets (h : x.Holds j) : j.callback.ticket ∈ x.jobTickets := by
  rw [Worker.jobTickets, List.mem_append]
  rcases h with queued | ⟨p, inTasks⟩
  · exact .inl (List.mem_map.mpr ⟨j, queued, rfl⟩)
  · exact .inr (List.mem_filterMap.mpr ⟨_, inTasks, rfl⟩)

theorem mem_outstanding_of_frame (h : f ∈ w.frames t) (ticket : f.ticket? = some k) :
    k ∈ w.outstanding := by
  rw [World.outstanding, List.mem_append, List.mem_flatMap, List.mem_flatMap]
  cases t with
  | caller n =>
    left
    cases hn : w.callers[n]? with
    | none => simp [World.frames, hn] at h
    | some fs =>
      rw [frames_caller hn] at h
      exact ⟨fs, List.mem_of_getElem? hn, mem_ticketsOf h ticket⟩
  | worker s =>
    right
    cases hx : w.workers[s]? with
    | none => simp [World.frames, hx] at h
    | some x =>
      rw [frames_worker hx] at h
      refine ⟨x, List.mem_of_getElem? hx, ?_⟩
      simp only [Worker.tickets, List.mem_append]
      exact .inl (.inl (mem_ticketsOf h ticket))

theorem mem_outstanding_of_job (hx : w.workers[s]? = some x) (h : k ∈ x.jobTickets) :
    k ∈ w.outstanding := by
  rw [World.outstanding, List.mem_append, List.mem_flatMap, List.mem_flatMap]
  refine .inr ⟨x, List.mem_of_getElem? hx, ?_⟩
  simp only [Worker.tickets, List.mem_append]
  exact .inl (.inr h)

theorem mem_outstanding_of_owes (hx : w.workers[s]? = some x) (owes : x.owes = true) :
    x.callback.ticket ∈ w.outstanding := by
  rw [World.outstanding, List.mem_append, List.mem_flatMap, List.mem_flatMap]
  refine .inr ⟨x, List.mem_of_getElem? hx, ?_⟩
  simp [Worker.tickets, owes]

end Outstanding

namespace World

namespace Accounted
variable {w : World} {t : Thread} {f : Frame} {s r k : Nat} {x y : Worker} {cb cb' : Callback}
  {o o' : Outcome} {b b' : Bool}

/-- A callback that was drawn waits in one place or was called once. -/
theorem once (h : w.Accounted) (drawn : k < w.tickets) :
    w.outstanding.count k + w.fired.count k = 1 := by
  rw [← List.count_append, List.perm_iff_count.mp h k, List.count_range, if_pos drawn]

theorem le_one (h : w.Accounted) (k : Nat) : w.outstanding.count k + w.fired.count k ≤ 1 := by
  rw [← List.count_append, List.perm_iff_count.mp h k, List.count_range]
  split <;> omega

theorem drawn (h : w.Accounted) (waits : k ∈ w.outstanding) : k < w.tickets :=
  List.mem_range.mp (h.mem_iff.mp (List.mem_append_left _ waits))

theorem not_fired (h : w.Accounted) (waits : k ∈ w.outstanding) : k ∉ w.fired := by
  intro fired
  have := h.le_one k
  have := List.count_pos_iff.mpr waits
  have := List.count_pos_iff.mpr fired
  omega

/-- A callback that code holds is kept by no worker. -/
theorem not_kept (h : w.Accounted) (hf : f ∈ w.frames t) (ticket : f.ticket? = some k)
    (hx : w.workers[s]? = some x) :
    k ∉ x.jobTickets ∧ (x.owes = true → x.callback.ticket ≠ k) := by
  suffices none : (x.jobTickets ++ if x.owes then [x.callback.ticket] else []).count k = 0 by
    have none := List.count_eq_zero.mp none
    rw [List.mem_append, not_or] at none
    refine ⟨none.1, fun owes same => none.2 ?_⟩
    rw [owes, same]
    exact List.mem_cons_self ..
  have most := h.le_one k
  have split (z : Worker) : z.tickets.count k = (ticketsOf z.frames).count k +
      (z.jobTickets ++ if z.owes then [z.callback.ticket] else []).count k := by
    simp only [Worker.tickets, List.append_assoc, List.count_append]
  have here := split x
  have part := count_le_flatMap (k := k) Worker.tickets hx
  rw [outstanding, List.count_append] at most
  cases t with
  | caller n =>
    cases hn : w.callers[n]? with
    | none => simp [World.frames, hn] at hf
    | some fs =>
      rw [frames_caller hn] at hf
      have code := List.count_pos_iff.mpr (mem_ticketsOf hf ticket)
      have := count_le_flatMap (k := k) ticketsOf hn
      omega
  | worker r =>
    cases hz : w.workers[r]? with
    | none => simp [World.frames, hz] at hf
    | some z =>
      rw [frames_worker hz] at hf
      have code := List.count_pos_iff.mpr (mem_ticketsOf hf ticket)
      by_cases same : r = s
      · subst same
        rw [hx] at hz
        cases hz
        omega
      · have there := split z
        have := count_two_le_flatMap (k := k) Worker.tickets hz hx same
        omega

theorem not_job (h : w.Accounted) (hf : f ∈ w.frames t) (ticket : f.ticket? = some k)
    (hx : w.workers[s]? = some x) : k ∉ x.jobTickets := (h.not_kept hf ticket hx).1

/-- A job belongs to one worker. -/
theorem one_worker (h : w.Accounted) (hx : w.workers[s]? = some x) (hy : w.workers[r]? = some y)
    (ofX : k ∈ x.jobTickets) (ofY : k ∈ y.jobTickets) : s = r := by
  by_contra ne
  have most := h.le_one k
  have inX := List.count_pos_iff.mpr ofX
  have inY := List.count_pos_iff.mpr ofY
  have both := count_two_le_flatMap (k := k) Worker.tickets hx hy ne
  simp only [outstanding, Worker.tickets, List.count_append] at most both
  omega

theorem mem_fired (h : .completed cb o b ∈ w.log) : cb.ticket ∈ w.fired :=
  List.mem_filterMap.mpr ⟨_, h, rfl⟩

/-- A callback is given one outcome. -/
theorem same_outcome (h : w.Accounted) (e : .completed cb o b ∈ w.log)
    (e' : .completed cb' o' b' ∈ w.log) (same : cb.ticket = cb'.ticket) : o = o' := by
  have most := h.le_one cb.ticket
  have most : w.fired.count cb.ticket ≤ 1 := by omega
  rw [fired] at most
  have more {log : List Entry} {cb : Callback} {o : Outcome} {b : Bool}
      (h : .completed cb o b ∈ log) : 0 < (log.filterMap Entry.called?).count cb.ticket :=
    List.count_pos_iff.mpr (List.mem_filterMap.mpr ⟨_, h, rfl⟩)
  generalize w.log = log at e e' most
  induction log with
  | nil => cases e
  | cons a log ih =>
    have tail : (log.filterMap Entry.called?).count cb.ticket ≤
        ((a :: log).filterMap Entry.called?).count cb.ticket := by
      rw [List.filterMap_cons]
      cases a.called? with
      | none => exact Nat.le_refl _
      | some n => exact List.count_le_count_cons
    rcases List.mem_cons.mp e with rfl | older
    · rcases List.mem_cons.mp e' with e' | older'
      · injection e' with _ ho
        exact ho.symm
      · have := more older'
        rw [← same] at this
        simp only [List.filterMap_cons, Entry.called?, List.count_cons_self] at most
        omega
    · rcases List.mem_cons.mp e' with rfl | older'
      · have := more older
        simp only [List.filterMap_cons, Entry.called?, ← same, List.count_cons_self] at most
        omega
      · exact ih older older' (Nat.le_trans tail most)

end Accounted

/-- The outcome that a callback is given is decided: code is about to give it, code or a worker that
was told to stop has the job, or it was given. -/
inductive Pledged (w : World) (k : Nat) (o : Outcome) : Prop
  | code (t : Thread) (cb : Callback) (ticket : cb.ticket = k) (h : .complete cb o ∈ w.frames t)
  | result (t : Thread) (j : Job) (r : Except Failure j.operation.Result)
    (ticket : j.callback.ticket = k) (same : j.outcome r = o) (h : .conclude j r ∈ w.frames t)
  | sending (t : Thread) (s : Nat) (x : Worker) (j : Job) (ticket : j.callback.ticket = k)
    (same : j.outcome (.error .interrupted) = o) (h : .enqueue s j ∈ w.frames t)
    (hx : w.workers[s]? = some x) (stopped : x.stopped = true)
  | held (s : Nat) (x : Worker) (j : Job) (ticket : j.callback.ticket = k)
    (same : j.outcome (.error .interrupted) = o) (hx : w.workers[s]? = some x)
    (stopped : x.stopped = true) (h : x.Holds j)
  | called (cb : Callback) (b : Bool) (ticket : cb.ticket = k) (h : .completed cb o b ∈ w.log)

/-- Whatever follows, a callback is given this outcome if it is called at all. -/
def Gives (w : World) (k : Nat) (o : Outcome) : Prop :=
  ∀ v, w.Reaches v → ∀ cb o' b, .completed cb o' b ∈ v.log → cb.ticket = k → o' = o

/-- No request is sent and no reply is taken for a callback. -/
def Silent (w : World) (k : Nat) : Prop :=
  ∀ e ∈ w.log, ∀ s task, e.exchange? = some (s, task) → task.ticket? ≠ some k

namespace Pledged
variable {w u v : World} {m : Move} {k : Nat} {o : Outcome}

theorem worker_setFrames {s : Nat} {x : Worker} (hx : u.workers[s]? = some x) (t : Thread)
    (fs : List Frame) : ∃ y, (u.setFrames t fs).workers[s]? = some y ∧ y.stopped = x.stopped ∧
      ∀ j, x.Holds j → y.Holds j := by
  cases t with
  | caller n => exact ⟨x, hx, rfl, fun _ h => h⟩
  | worker r =>
    by_cases hr : r = s
    · subst hr
      exact ⟨{ x with frames := fs }, by simp [hx], rfl, fun _ h => h⟩
    · exact ⟨x, by simp [hx, hr], rfl, fun _ h => h⟩

theorem step (h : w.Pledged k o) (step : WorldStep w m v) : v.Pledged k o := by
  cases h with
  | code t cb ticket h =>
    obtain stays | ⟨rest, fs, u, rfl, code, ran, rfl, -⟩ := step.frame h
    · exact .code t cb ticket stays
    · cases ran with
      | complete => exact .called cb _ ticket (by rw [log_setFrames]; exact List.mem_cons_self ..)
      | own f s x x' c chain fs isHere hx h => cases h
      | stray f own => cases own
  | result t j r ticket same h =>
    obtain stays | ⟨rest, fs, u, rfl, code, ran, rfl, now⟩ := step.frame h
    · exact .result t j r ticket same stays
    · cases ran with
      | conclude => exact .code t j.callback ticket (by rw [now, ← same]; simp)
      | own f s x x' c chain fs isHere hx h => cases h
      | stray f own => cases own
  | sending t s x j ticket same h hx stopped =>
    obtain stays | ⟨rest, fs, u, rfl, code, ran, rfl, now⟩ := step.frame h
    · obtain ⟨y, hy, worker⟩ := step.workerStep hx
      exact .sending t s y j ticket same stays hy (worker.stopped stopped)
    · cases ran with
      | enqueue s j z hz isOpen =>
        rw [hx] at hz
        cases hz
        have hz : ({ w with workers := w.workers.modify s fun x =>
            { x with queue := x.queue ++ [j] } } : World).workers[s]? =
              some { x with queue := x.queue ++ [j] } := by simp [hx]
        obtain ⟨y, hy, still, holds⟩ := worker_setFrames hz t ([] ++ rest)
        exact .held s y j ticket same hy (still.trans stopped) (holds j (.inl (by simp)))
      | tooLate => exact .code t j.callback ticket (by rw [now, ← same]; simp)
      | own f s x x' c chain fs isHere hx h => cases h
      | stray f own => cases own
  | held s x j ticket same hx stopped h =>
    obtain ⟨y, hy, worker⟩ := step.workerStep hx
    obtain holds | interrupted | ⟨going, -⟩ := worker.holds h
    · exact .held s y j ticket same hy (worker.stopped stopped) holds
    · exact .code (.worker s) j.callback ticket
        (by rw [frames_worker hy, ← same]; exact interrupted)
    · rw [stopped] at going
      cases going
  | called cb b ticket h =>
    obtain ⟨es, he, -⟩ := step.log
    exact .called cb b ticket (by rw [he]; exact List.mem_append_right _ h)

/-- Whatever is decided was called, or the callback waits. -/
theorem called_or_waits (h : w.Pledged k o) :
    (∃ cb b, cb.ticket = k ∧ .completed cb o b ∈ w.log) ∨ k ∈ w.outstanding := by
  cases h with
  | code t cb ticket h => exact .inr (mem_outstanding_of_frame h (congrArg some ticket))
  | result t j r ticket same h => exact .inr (mem_outstanding_of_frame h (congrArg some ticket))
  | sending t s x j ticket same h =>
    exact .inr (mem_outstanding_of_frame h (congrArg some ticket))
  | held s x j ticket same hx stopped h =>
    exact .inr (mem_outstanding_of_job hx (ticket ▸ mem_jobTickets h))
  | called cb b ticket h => exact .inl ⟨cb, b, ticket, h⟩

/-- What is decided is what the callback is given, whatever follows. -/
theorem gives {w₀ : World} (first : w₀.Untouched) (run : w₀.Reaches w) (h : w.Pledged k o) :
    w.Gives k o := by
  intro v later cb o' b called ticket
  have accounted := Accounted.of_reaches first (run.trans later)
  have pledged : v.Pledged k o :=
    later.keeps (P := fun v => v.Pledged k o) h fun _ _ _ h step => h.step step
  obtain ⟨cb', b', ticket', called'⟩ | waits := pledged.called_or_waits
  · exact accounted.same_outcome called called' (ticket.trans ticket'.symm)
  · exact absurd (ticket ▸ Accounted.mem_fired called) (accounted.not_fired waits)

/-- Once the outcome is decided, the node is asked nothing for it. -/
theorem silent (accounted : w.Accounted) (h : w.Pledged k o) (step : WorldStep w m v)
    (silent : w.Silent k) : v.Silent k := by
  obtain ⟨es, he, exchange⟩ := step.log
  intro e inLog s task isExchange ticket
  rw [he] at inLog
  rcases List.mem_append.mp inLog with new | old
  · obtain ⟨x, r, rest, hx, -, going, ready⟩ := exchange e new s task isExchange
    have job : k ∈ x.jobTickets := by
      simp only [Worker.jobTickets, Worker.tasks, ready, List.map_cons, List.cons_append,
        List.filterMap_cons, ticket, List.mem_append, List.mem_cons, true_or, or_true]
    cases h with
    | code t cb ticket h => exact accounted.not_job h (congrArg some ticket) hx job
    | result t j r ticket same h => exact accounted.not_job h (congrArg some ticket) hx job
    | sending t s x j ticket same h =>
      exact accounted.not_job h (congrArg some ticket) hx job
    | held r y j ticket same hy stopped h =>
      have : s = r := accounted.one_worker hx hy job (ticket ▸ mem_jobTickets h)
      subst this
      rw [hx] at hy
      cases hy
      rw [stopped] at going
      cases going
    | called cb b ticket h =>
      exact accounted.not_fired (mem_outstanding_of_job hx job) (ticket ▸ Accounted.mem_fired h)
  · exact silent e old s task isExchange ticket

theorem silent_of_reaches {w₀ : World} (first : w₀.Untouched) (run : w₀.Reaches w)
    (h : w.Pledged k o) (silent : w.Silent k) (later : w.Reaches v) : v.Silent k := by
  have all := later.keeps
    (P := fun v => v.Sound ∧ v.Accounted ∧ v.Pledged k o ∧ v.Silent k)
    ⟨.of_reaches first run, .of_reaches first run, h, silent⟩
    fun _ _ _ ⟨sound, accounted, pledged, quiet⟩ step =>
      ⟨sound.step step, accounted.step sound step, pledged.step step,
        pledged.silent accounted step quiet⟩
  exact all.2.2.2

end Pledged

end World

end RemoteNode.Session
