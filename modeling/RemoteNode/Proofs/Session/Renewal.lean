import RemoteNode.Proofs.Session.Renumbering
import RemoteNode.Proofs.Session.Convergence
import RemoteNode.Proofs.Session.Forgetting
import RemoteNode.Proofs.Session.Progress
import RemoteNode.Proofs.Session.Readiness

/-! What is left of a session when the next one starts: nothing that anybody could notice. Seen from
that moment on, the world is one in which nothing has happened, and it goes on like that one. -/

namespace RemoteNode.Session

section Workers
variable {w : World} {m : Move} {s : Nat} {x y : Worker}

/-- A worker that is not engaged has only to leave, if it has not left. -/
theorem Worker.OnCourse.ownCode_of_disengaged (h : x.OnCourse) (disengaged : ¬x.IsEngaged) :
    x.phase = .opening ∧ ownCode x.frames = [.leave] ∨
      x.phase = .ended ∧ ownCode x.frames = [] := by
  have course := h.course
  have tells (b : Bool) : .setConnected b ∉ ownCode x.frames := fun tells =>
    disengaged (.inr ⟨_, (mem_ownCode rfl).mp tells, rfl⟩)
  have stands : standsFor x.phase (ownCode x.frames) = .notInitialized := by
    by_contra stands
    exact disengaged (.inl stands)
  generalize x.phase = p, x.refreshing = q, x.refreshes = n, ownCode x.frames = o
    at course tells stands ⊢
  cases course with
  | refresh _ _ stays code =>
    rw [standsFor_refresh code] at stands
    cases p with
    | ended => exact absurd rfl stays
    | _ => cases stands
  | asked _ stays =>
    cases p with
    | ended => exact absurd rfl stays
    | _ => cases stands
  | refused => exact absurd (List.mem_cons_self ..) (tells false)
  | leave => exact .inl ⟨rfl, rfl⟩
  | ended => exact .inr ⟨rfl, rfl⟩
  | asleep _ h | hush _ h | spent _ h =>
    rw [standsFor_live h] at stands
    cases stands
  | _ => cases stands

/-- A worker that is about to leave has no task left. -/
theorem Worker.OnCourse.tasks_of_leave (h : x.OnCourse) (serving : x.Serving)
    (drained : x.phase = .closed → .leave ∈ x.frames → x.IsDone) (leaves : .leave ∈ x.frames) :
    x.tasks = [] := by
  have course := h.course
  have inCode := (mem_ownCode (f := .leave) rfl).mpr leaves
  have opening (opening : x.phase = .opening) (none : x.refreshes = 0) : x.tasks = [] := by
    refine List.eq_nil_iff_forall_not_mem.mpr fun task inTasks => ?_
    have job : task.isRefresh = false := by
      simpa using List.countP_eq_zero.mp none task inTasks
    exact serving.jobs task inTasks job opening
  have closed (closed : x.phase = .closed) : x.tasks = [] := by
    obtain ⟨-, runnable, waiting⟩ := drained closed leaves
    rw [Worker.tasks, runnable, waiting]
    rfl
  generalize x.phase = p, x.refreshing = q, x.refreshes = n, ownCode x.frames = o at *
  cases course with
  | refresh _ _ _ code => cases code <;> simp at inCode
  | lost | failed | refused | leave => exact opening rfl rfl
  | finish => exact closed rfl
  | _ => simp at inCode

end Workers

namespace World

/-- Workers that have ended have no task left. -/
def Parting (w : World) : Prop :=
  ∀ (s : Nat) (x : Worker), w.workers[s]? = some x → x.phase = .ended → x.tasks = []

namespace Parting
variable {w v w₀ : World} {m : Move}

theorem step (h : w.Parting) (hs : w.Sound) (serving : w.Serving) (drained : w.Drained)
    (step : WorldStep w m v) : v.Parting := by
  intro s y hy ended
  obtain ⟨x, hx, worker⟩ | ⟨-, t, cb, rest, -, -, rfl⟩ := step.cameFrom hy
  · have before := h s x hx
    cases worker with
    | others y away touched => exact touched.tasks.trans (before (touched.phase ▸ ended))
    | foreign f rest fs u y here hf step notOwn touched =>
      exact touched.tasks.trans (before (touched.phase ▸ ended))
    | own f rest fs x' c chain here hf own =>
      have ended : x.phase = .ended := by cases own <;> first | exact ended | cases ended
      have none := (hs.courses s x hx).ownCode_of_ended ended
      rw [hf, ownCode_own own.isOwn] at none
      cases none
    | markFailed rest here hf => exact before ended
    | leave rest here hf =>
      exact (hs.courses s x hx).tasks_of_leave (serving.workers s x hx) (drained s x hx)
        (by rw [hf]; exact List.mem_cons_self ..)
    | reply i r task here there =>
      have inTasks : task ∈ x.tasks := List.mem_append_right _ (List.mem_of_getElem? there)
      rw [before ended] at inTasks
      cases inTasks
    | turn k y es here idle stays turn =>
      obtain same | ⟨-, closed, -⟩ := turn.same.2.2.2
      · exact absurd (same.symm.trans ended) stays
      · rw [closed] at ended
        cases ended
  · cases ended

theorem of_reaches (first : w₀.Untouched) (run : w₀.Reaches w) : w.Parting := by
  have all := run.keeps (P := fun w => w.Sound ∧ w.Serving ∧ w.Drained ∧ w.Parting) ?_ ?_
  · exact all.2.2.2
  · refine ⟨.of_untouched first, .of_untouched first, .of_reaches first (.refl _),
      fun s x hx => ?_⟩
    rw [first.workers] at hx
    cases hx
  · intro w m v ⟨sound, serving, drained, parting⟩ step
    exact ⟨sound.step step, serving.step step, drained.step sound step,
      parting.step sound serving drained step⟩

end Parting

/-- The moment that the world is at. -/
def now (w : World) : Cut := ⟨w.workers.length, w.callers.length, w.log.length⟩

/-- Each of some moves is of a kind where it is made. -/
def Along (kind : World → Move → Prop) : World → List Move → Prop
  | _, [] => True
  | w, m :: ms => kind w m ∧ ∀ v, w.step m = some v → v.Along kind ms

/-- If the remote node is let go of, then when the workers of before have no code left. -/
def Releasable (c : Cut) (w : World) (m : Move) : Prop :=
  ∀ n, m = .release n → ∀ s < c.workers, w.frames (.worker s) = []

end World

namespace Cut
variable {c : Cut} {w v : World} {m : Move} {ms : List Move}

theorem Late.served (late : c.Late w.connection) (s : Nat) (served : w.connection.server = .ok s) :
    c.workers ≤ s :=
  late s (.inl (World.worker_of_server served).2.2)

/-- Fair moves lead to the same. -/
theorem steps_world (h : c.Spent w) (late : c.Late w.connection) (fair : w.Along c.Fair ms) :
    (c.world w).steps (ms.map c.move) = (w.steps ms).map c.world := by
  induction ms generalizing w with
  | nil => rfl
  | cons m ms ih =>
    obtain ⟨fair, rest⟩ := fair
    rw [List.map_cons, World.steps, World.steps, step_world h late fair]
    cases next : w.step m with
    | none => rfl
    | some v =>
      have step := worldStep_of_step next
      exact ih (h.step late.served step) (late.step h.fits step) (rest v next)

/-- Moves that the world takes are fair, but for letting go of the remote node. -/
theorem along_fair (h : c.Spent w) (late : c.Late w.connection) (run : w.steps ms = some v)
    (releasable : w.Along (World.Releasable c) ms) : w.Along c.Fair ms := by
  induction ms generalizing w with
  | nil => trivial
  | cons m ms ih =>
    obtain ⟨first, rest⟩ := releasable
    rw [World.steps] at run
    obtain ⟨u, next, run⟩ := Option.bind_eq_some_iff.mp run
    have step := worldStep_of_step next
    refine ⟨fair_of_step h step first, fun u' next' => ?_⟩
    rw [next] at next'
    cases next'
    exact ih (h.step late.served step) (late.step h.fits step) run (rest u next)

/-- What has happened since the moment is seen from then on, but for the ends of the workers of
before. -/
def Heard (c : Cut) (w : World) : Prop :=
  ∀ e ∈ w.log.take (w.log.length - c.entries), c.entry e = none → ∃ s < c.workers, e = .ended s

theorem Heard.step (h : c.Heard w) (spent : c.Spent w) (step : WorldStep w m v) : c.Heard v := by
  obtain ⟨es, log, exchange⟩ := step.log
  have entries := spent.fits.entries
  have since : v.log.take (v.log.length - c.entries) =
      es ++ w.log.take (w.log.length - c.entries) := by
    have more : es.length + w.log.length - c.entries =
        es.length + (w.log.length - c.entries) := by omega
    rw [log, List.length_append, more, List.take_append, List.take_of_length_le (by omega)]
    simp
  intro e inLog silent
  rw [since] at inLog
  rcases List.mem_append.mp inLog with new | old
  · have spoken {s : Nat} {task : Task} (exchanges : e.exchange? = some (s, task))
        (early : s < c.workers) : False := by
      obtain ⟨x, r, rest, hx, -, -, ready⟩ := exchange e new s task exchanges
      have tasks := (spent.workers s x early hx).tasks
      rw [Worker.tasks, ready] at tasks
      cases tasks
    cases e with
    | sent s task | answered s task r =>
      by_cases early : s < c.workers
      · exact (spoken rfl early).elim
      · rw [entry, if_neg early] at silent
        cases silent
    | ended s =>
      by_cases early : s < c.workers
      · exact ⟨s, early, rfl⟩
      · rw [entry, if_neg early] at silent
        cases silent
    | _ => cases silent
  · exact h e old silent

theorem Heard.steps (h : c.Heard w) (spent : c.Spent w) (late : c.Late w.connection)
    (run : w.steps ms = some v) : c.Heard v := by
  induction ms generalizing w with
  | nil =>
    cases run
    exact h
  | cons m ms ih =>
    rw [World.steps] at run
    obtain ⟨u, next, run⟩ := Option.bind_eq_some_iff.mp run
    have step := worldStep_of_step next
    exact ih (h.step spent step) (spent.step late.served step) (late.step spent.fits step) run

/-- Every move but those of callers that were not there is what a move looks like from the moment
on. -/
theorem exists_move (m : Move)
    (there : ∀ n, (∃ a, m = .call n a) ∨ m = .release n → n < c.callers) :
    ∃ m', c.move m' = m := by
  cases m with
  | run t =>
    suffices ∃ t', c.thread t' = t by
      obtain ⟨t', rfl⟩ := this
      exact ⟨.run t', rfl⟩
    cases t with
    | worker s => exact ⟨.worker (c.workers + s), thread_late s⟩
    | caller n =>
      by_cases old : n < c.callers
      · exact ⟨.caller n, by rw [thread, if_pos old]⟩
      · by_cases early : n - c.callers < c.workers
        · refine ⟨.worker (n - c.callers), ?_⟩
          rw [thread_early early, Nat.add_sub_cancel' (by omega)]
        · refine ⟨.caller (n - c.workers), ?_⟩
          rw [thread, if_neg (by omega), Nat.sub_add_cancel (by omega)]
  | call n a => exact ⟨.call n a, rfl⟩
  | release n => exact ⟨.release n, rfl⟩
  | reply s i r => exact ⟨.reply (c.workers + s) i r, by rw [move, Nat.add_sub_cancel_left]⟩
  | turn s k => exact ⟨.turn (c.workers + s) k, by rw [move, Nat.add_sub_cancel_left]⟩

end Cut

namespace World
variable {w₀ w v : World} {t : Thread} {cb : Callback} {rest : List Frame} {ms : List Move}

/-- A remote node that has just been made, where the world is: it has the settings and the observers
of the world, and threads go on with what they have to run. -/
def anew (w : World) : World := { initial 0 w.timeout with
  nodeObservers := w.nodeObservers
  connectivityObservers := w.connectivityObservers
  kept := w.kept
  reaction := w.reaction
  transport := w.transport
  tickets := w.tickets
  gone := w.gone
  callers := w.callers.map w.now.code ++ w.workers.map (w.now.code ·.frames) }

/-- A session that is about to start is as in a remote node that has just been made. -/
structure Renewed (w : World) (t : Thread) (cb : Callback) (rest : List Frame) : Prop where
  new : w.now.world w = w.anew
  starts : w.anew.frames (w.now.thread t) = .start (w.now.callback cb) :: w.now.code rest
  /-- The same moves lead to the same: requests, replies, notifications, outcomes, what is known. -/
  same : ∀ ms, w.Along w.now.Fair (.run t :: ms) →
    w.anew.steps ((.run t :: ms).map w.now.move) =
      (w.steps (.run t :: ms)).map w.now.world
  overview : ∀ v, (w.now.world v).overview = v.overview
  /-- What the world does is fair. -/
  fair : ∀ ms v, w.steps (.run t :: ms) = some v → w.Along (Releasable w.now) (.run t :: ms) →
    w.Along w.now.Fair (.run t :: ms)
  /-- Nothing that happens is left out but the ends of the workers of before. -/
  heard : ∀ ms v, w.steps (.run t :: ms) = some v → w.now.Heard v
  /-- Every move of the callers that there are, of workers and of the node is such a move. -/
  moves : ∀ m, (∀ n, (∃ a, m = .call n a) ∨ m = .release n → n < w.callers.length) →
    ∃ m', w.now.move m' = m

theorem step_start (code : w.frames t = .start cb :: rest) (calm : w.connection.stopping = false)
    (free : w.connection.state = .notInitialized) (next : w.step (.run t) = some v) :
    v.connection = ⟨.initializing, false, some w.workers.length, some w.workers.length⟩ := by
  obtain ⟨f, rest', fs, u, code', ran, rfl, -⟩ := (worldStep_of_step next).ran
  rw [code] at code'
  cases code'
  rw [connection_setFrames]
  cases ran with
  | start cb calm state => rfl
  | startStopping cb stopping =>
    rw [calm] at stopping
    cases stopping
  | startAgain cb calm busy => exact absurd free busy
  | own f s x x' c chain fs isHere hx own => cases own
  | stray f own => cases own

/-- Where a session is about to start, the workers of before are spent. -/
theorem spent_now (hs : w.Sound) (serving : w.Serving) (drained : w.Drained)
    (untangled : w.Untangled) (parting : w.Parting) (prompt : w.Prompt)
    (calm : w.connection.stopping = false) (free : w.connection.state = .notInitialized) :
    w.now.Spent w := by
  have leaving (s : Nat) (x : Worker) (hx : w.workers[s]? = some x) :
      x.phase = .opening ∧ ownCode x.frames = [.leave] ∨
        x.phase = .ended ∧ ownCode x.frames = [] := by
    refine (hs.courses s x hx).ownCode_of_disengaged fun engaged => ?_
    obtain busy | stopping := (untangled.engaged s x hx engaged).2
    · exact busy free
    · rw [calm] at stopping
      cases stopping
  refine ⟨⟨Nat.le_refl _, rfl, Nat.le_refl _⟩, fun s x _ hx => ?_, fun t s j x hj _ hx => ?_⟩
  · have only (f : Frame) (inCode : f ∈ x.frames) (own : f.isOwn = true) : f = .leave := by
      have inOwn := (mem_ownCode own).mpr inCode
      obtain ⟨-, code⟩ | ⟨-, code⟩ := leaving s x hx <;> rw [code] at inOwn
      · exact List.mem_singleton.mp inOwn
      · cases inOwn
    obtain ⟨-, code⟩ | ⟨ended, -⟩ := leaving s x hx
    · have leaves : .leave ∈ x.frames := by
        rw [← mem_ownCode rfl, code]
        exact List.mem_cons_self ..
      exact ⟨(hs.courses s x hx).tasks_of_leave (serving.workers s x hx) (drained s x hx) leaves,
        .inr leaves, only⟩
    · exact ⟨parting s x hx ended, .inl ended, only⟩
  · obtain ⟨opening, code⟩ | ⟨ended, -⟩ := leaving s x hx
    · exfalso
      have ready := prompt.wasReady hx (.inr ⟨t, hj⟩)
      have goes : .goLive ∈ x.frames → .goLive ∈ ownCode x.frames := (mem_ownCode rfl).mpr
      rw [code] at goes
      rw [Worker.WasReady, Worker.HasPassed, opening] at ready
      simp at ready goes
      exact goes ready
    · simp [Worker.isClosed, ended]

/-- Seen from the moment at which a session is about to start, nothing has happened. -/
theorem world_now (owned : w.Owned) (forgets : w.Forgets) (untangled : w.Untangled)
    (calm : w.connection.stopping = false) (free : w.connection.state = .notInitialized) :
    w.now.world w = w.anew := by
  have early (s : Nat) (there : s < w.workers.length) : w.now.handle (some s) = none :=
    Cut.handle_of_lt there
  have worker : w.now.handle w.connection.worker = none := by
    cases held : w.connection.worker with
    | none => rfl
    | some s =>
      obtain ⟨-, -, x, hx, -⟩ := owned.held s held
      exact early s (List.getElem?_eq_some_iff.mp hx).1
  have running : w.now.handle w.connection.running = none := by
    cases runs : w.connection.running with
    | none => rfl
    | some s =>
      have last := (owned.running s runs).1
      exact early s (by omega)
  have connection : w.now.connection w.connection = .initial := by
    rw [Cut.connection, worker, running, calm, free]
    rfl
  have quiet (side : Observer.Side) : w.delivery side = none := by
    by_contra telling
    obtain ⟨d, hd⟩ := Option.ne_none_iff_exists'.mp telling
    obtain ⟨r, n, rest, -, -, tells⟩ := untangled.delivery side d hd
    obtain ⟨f, fs, code⟩ := List.exists_cons_of_ne_nil (List.ne_nil_of_mem tells)
    obtain ⟨x, hx, -⟩ := worker_of_frames code
    rw [frames_worker hx] at tells
    obtain busy | stopping := (untangled.engaged r x hx (.inr ⟨_, tells, rfl⟩)).2
    · exact busy free
    · rw [calm] at stopping
      cases stopping
  have node : w.nodeDelivery = none := quiet .node
  have connectivity : w.connectivityDelivery = none := quiet .connectivity
  have chain := forgets.chain free
  have fee := forgets.fee (by simp [free])
  have workers : w.workers.drop w.now.workers = [] := List.drop_length
  have before : w.workers.take w.now.workers = w.workers := List.take_length
  have log : w.log.take (w.log.length - w.now.entries) = [] := by simp [now]
  simp only [Cut.world, connection, chain, fee, node, connectivity, workers, before, log, anew,
    initial, Option.map_none, List.map_nil, List.filterMap_nil]

end World

/-- In a run in which no worker shuts the remote node down, every session is as the first of a
remote node that has just been made, whatever the sessions before were and however they ended. -/
theorem renewed_of_reaches {w₀ w : World} {t : Thread} {cb : Callback} {rest : List Frame}
    (first : w₀.Untouched) (run : w₀.ReachesBy World.OffThread w)
    (code : w.frames t = .start cb :: rest) (calm : w.connection.stopping = false)
    (free : w.connection.state = .notInitialized) : w.Renewed t cb rest := by
  have orderly : w₀.ReachesBy World.Orderly w := run.mono fun _ _ may => may.orderly
  have hs := World.Sound.of_reaches first run.reaches
  have owned := World.Owned.of_reaches first orderly
  have untangled := World.Untangled.of_reaches first run
  have spent := World.spent_now hs (World.Serving.of_reaches first run.reaches)
    (World.Drained.of_reaches first run.reaches) untangled
    (World.Parting.of_reaches first run.reaches) (World.Prompt.of_reaches first orderly) calm free
  have new := World.world_now owned (World.Forgets.of_reaches first orderly) untangled calm free
  have fits := spent.fits
  have after {v : World} (next : w.step (.run t) = some v) :
      w.now.Spent v ∧ w.now.Late v.connection := by
    refine ⟨spent.step (fun s served => ?_) (worldStep_of_step next), fun s handle => ?_⟩
    · have initialized := (World.worker_of_server served).2.1
      rw [free] at initialized
      cases initialized
    · rw [World.step_start code calm free next] at handle
      obtain rfl : w.workers.length = s := by rcases handle with h | h <;> exact Option.some.inj h
      exact Nat.le_refl _
  refine ⟨new, ?_, fun ms fair => ?_, fun _ => rfl, fun ms v run releasable => ?_,
    fun ms v run => ?_, fun m there => Cut.exists_move m there⟩
  · rw [← new, Cut.frames_world fits, code]
    rfl
  · have first : (w.now.world w).step (w.now.move (.run t)) =
        (w.step (.run t)).map w.now.world :=
      Cut.run_world fits code (congrArg some (Cut.start_world fits cb))
    rw [← new, List.map_cons, World.steps, World.steps, first]
    cases next : w.step (.run t) with
    | none => rfl
    | some v =>
      obtain ⟨spent, late⟩ := after next
      exact Cut.steps_world spent late (fair.2 v next)
  · refine ⟨fun s rest' code' => ?_, fun u next => ?_⟩
    · rw [code] at code'
      cases code'
    · obtain ⟨spent, late⟩ := after next
      rw [World.steps, next] at run
      exact Cut.along_fair spent late run (releasable.2 u next)
  · rw [World.steps] at run
    obtain ⟨u, next, run⟩ := Option.bind_eq_some_iff.mp run
    have nothing : w.now.Heard w := by
      intro e inLog
      simp [World.now] at inLog
    have heard := nothing.step spent (worldStep_of_step next)
    obtain ⟨spent, late⟩ := after next
    exact heard.steps spent late run

/-- An observer is registered and a caller initializes; the first refresh learns a height and does
not understand what comes next. Then the caller initializes again. -/
def untilRetry : List Move :=
  .call 0 (.register .node 0) :: List.replicate 3 (.run (.caller 0)) ++
    .call 0 (.init "first" []) :: List.replicate 5 (.run (.caller 0)) ++
      .run (.worker 0) :: Node.replied (World.answered World.infoBody) 15 ++
        Node.replied (World.answered []) 8 ++
          .call 0 (.init "second" []) :: List.replicate 4 (.run (.caller 0))

/-- The callback that a caller is about to start a worker for. -/
def startsFor? (w : World) (n : Nat) : Option Callback :=
  match w.frames (.caller n) with
  | .start cb :: _ => some cb
  | _ => none

set_option maxRecDepth 20000 in
/-- The second session is as the first of a remote node that has just been made. -/
theorem renewed_untilRetry : ∃ w cb rest, Node.patient.ReachesBy World.OffThread w ∧
    w.frames (.caller 0) = .start cb :: rest ∧ cb.label = "second" ∧ w.fired = [0] ∧
      w.workers.length = 1 ∧ w.Renewed (.caller 0) cb rest := by
  have found : (Node.patient.checkedSteps World.isOffThread untilRetry).any (fun w =>
      (startsFor? w 0).any (fun cb => cb.label = "second") && w.fired = [0] &&
        w.workers.length = 1 && w.connection = .initial) = true := by decide +kernel
  obtain ⟨w, hw, found⟩ := (Option.any_eq_true ..).mp found
  simp only [Bool.and_eq_true, decide_eq_true_eq, Option.any_eq_true] at found
  obtain ⟨⟨⟨⟨cb, starts, second⟩, fired⟩, one⟩, connection⟩ := found
  obtain ⟨rest, code⟩ : ∃ rest, w.frames (.caller 0) = .start cb :: rest := by
    rw [startsFor?] at starts
    split at starts
    · rename_i cb' rest code
      cases starts
      exact ⟨rest, code⟩
    · cases starts
  have run := World.ReachesBy.of_checkedSteps (fun _ _ h => World.offThread_of_isOffThread h) hw
  exact ⟨w, cb, rest, run, code, second, fired, one,
    renewed_of_reaches ⟨1, .standard, true, _, _, rfl⟩ run code (by rw [connection]; rfl)
      (by rw [connection]; rfl)⟩

end RemoteNode.Session
