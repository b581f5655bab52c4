import RemoteNode.Proofs.Session.Reliability
import RemoteNode.Proofs.Session.Waiting

/-! Threads never wait for one another in a circle. In a run in which no worker shuts down, a world
in which nothing can run by itself is one in which no code is left. -/

namespace RemoteNode.Session

/-- How running a frame changes the deliveries that go on. -/
theorem FrameStep.delivery {w u : World} {t : Thread} {f : Frame} {fs : List Frame}
    (step : FrameStep w t f u fs) (side : Observer.Side) : u.delivery side = w.delivery side ∨
      (∃ n r, f = .notify n ∧ n.side = side ∧ u.delivery side = some ⟨t, r⟩ ∧
        fs = [.deliver n r]) ∨
      ∃ n, f = .deliver n [] ∧ n.side = side ∧ u.delivery side = none := by
  cases step with
  | notify n r free =>
    by_cases same : n.side = side
    · exact .inr (.inl ⟨n, r, rfl, same, by simp [World.delivery_setDelivery, same], rfl⟩)
    · exact .inl (by simp [World.delivery_setDelivery, same])
  | delivered n =>
    by_cases same : n.side = side
    · exact .inr (.inr ⟨n, rfl, same, by simp [World.delivery_setDelivery, same]⟩)
    · exact .inl (by simp [World.delivery_setDelivery, same])
  | notifyNobody | register | unregister | unregisterAwait => exact .inl (by simp)
  | _ => exact .inl (by cases side <;> rfl)

namespace World

/-- Who may wait for whom. -/
structure Untangled (w : World) : Prop where
  layers : ∀ t, Layered (w.frames t)
  callers : ∀ n, ∀ g ∈ w.frames (.caller n), g.tells = false
  ended : ∀ (s : Nat) (x : Worker), w.workers[s]? = some x → x.phase = .ended →
    ∀ g ∈ x.frames, g.mayTell = false
  offThread : ∀ s, .finishShutdown ∉ w.frames (.worker s)
  /-- A worker that may tell something runs, and the connection is not free to be started. -/
  engaged : ∀ (s : Nat) (x : Worker), w.workers[s]? = some x → x.IsEngaged →
    w.connection.running = some s ∧
      (w.connection.state ≠ .notInitialized ∨ w.connection.stopping = true)
  delivery : ∀ side d, w.delivery side = some d → ∃ r n rest, d.thread = .worker r ∧
    n.side = side ∧ .deliver n rest ∈ w.frames (.worker r)
  /-- Whom a thread waits for was told to stop. -/
  joined : ∀ t q rest, w.frames t = .join q :: rest →
    ∃ x, w.workers[q]? = some x ∧ x.stopped = true
  /-- A worker waits only for later ones, and not while it tells something. -/
  later : ∀ p q, .join q ∈ w.frames (.worker p) →
    p ≤ q ∧ ∀ g ∈ w.frames (.worker p), g.delivers = false

section Steps
variable {w u v : World} {m : Move} {t : Thread} {f : Frame} {fs rest : List Frame} {s r p q : Nat}
  {x y : Worker} {side : Observer.Side} {d : Delivery}

/-- What a thread joins next it has told to stop. -/
theorem signal_of_join (h : Stack (f :: .join q :: rest)) : f = .signal q := by
  generalize hg : f :: .join q :: rest = code at h
  cases h with
  | plain _ h =>
    subst hg
    have := h.stays (f := .join q) (by simp)
    cases this
  | stale r gs h =>
    obtain ⟨first, below⟩ := List.cons.inj hg
    obtain ⟨second, -⟩ := List.cons.inj below
    cases second
    exact first
  | staleJoin r gs h =>
    obtain ⟨-, rfl⟩ := List.cons.inj hg
    have := h.stays (f := .join q) (by simp)
    cases this
  | closing r k gs left h =>
    obtain ⟨hrest, next⟩ := shutdownCode_next left hg
    obtain ⟨rfl, rfl⟩ | ⟨rfl, rfl⟩ | ⟨rfl, rfl⟩ | ⟨rfl, rfl⟩ | ⟨rfl, rfl⟩ := next
    · obtain ⟨same, -⟩ := List.cons.inj hrest
      cases same
      rfl
    · cases hrest
    · cases hrest
    · cases hrest
    · have below : gs = .join q :: rest := hrest.symm
      have := h.stays (f := .join q) (by simp [below])
      cases this

theorem callers_step (h : w.Untangled) (hs : w.Sound) (step : WorldStep w m v) (n : Nat) :
    ∀ g ∈ v.frames (.caller n), g.tells = false := by
  have before := h.callers n
  have own := hs.callers n
  have thread := step.threadStep (.caller n)
  generalize w.frames (.caller n) = code, v.frames (.caller n) = code' at before own thread
  cases thread with
  | same => exact before
  | run f rest fs u here code ran result =>
    have foreign : f.isOwn = false := by
      by_contra isOwn
      rw [ownCode_own (by simpa using isOwn)] at own
      cases own
    have quiet := before f (List.mem_cons_self ..)
    intro g hg
    rcases List.mem_append.mp hg with pushed | left
    · have still := ran.delivers quiet g pushed
      obtain ⟨-, silent⟩ := ran.silent foreign (by rintro n rfl; cases quiet) g pushed
      cases g <;> first
        | rfl
        | exact absurd rfl (silent _)
        | simp [Frame.delivers] at still
    · exact before g (List.mem_cons_of_mem _ left)
  | call | release => simp [Frame.tells]
  | started r cb rest here => cases here
  | turn s k x x' es here => cases here

theorem offThread_step (h : w.Untangled) (ok : w.OffThread m) (step : WorldStep w m v) (s : Nat) :
    .finishShutdown ∉ v.frames (.worker s) := by
  intro finish
  obtain old | ⟨cb, r, rest, here, -, stale⟩ | ⟨src, a, r, rest, here, code, -⟩ :=
    Stack.source (step.threadStep (.worker s)) rfl finish
  · exact h.offThread s old
  · simp at stale
  · exact ok s src a rest here code

/-- A worker that has just reported its failure is not engaged: below its report nothing may be
told. -/
theorem not_engaged_of_markFailed (h : x.OnCourse) (layers : Layered x.frames)
    (step : WorkerStep w (.run (.worker s)) s x y) (hf : x.frames = .markFailed :: rest) :
    ¬y.IsEngaged := by
  rintro (stands | ⟨g, hg, mayTell⟩)
  · cases step.standStep h with
    | keep same stays => exact (stays _ _ rfl hf).2 rfl
    | fail rest' here code before after => exact stands after
    | mark rest' here code | refuse rest' here code | left rest' here code =>
      rw [hf] at code
      cases code
  · have now : y.frames = rest := by
      cases step with
      | others y away => exact absurd rfl away
      | foreign f rest' fs u y here code ran notOwn =>
        rw [hf] at code
        cases code
        cases notOwn
      | own f rest' fs x' c chain here code own =>
        rw [hf] at code
        cases code
        cases own
      | markFailed rest' here code => exact (List.cons.inj (code.symm.trans hf)).2
      | leave rest' here code =>
        rw [hf] at code
        cases code
      | reply i r task here | turn k y es here => cases here
    rw [now] at hg
    rw [hf] at layers
    have course := h.course
    rw [hf, ownCode_own rfl] at course
    cases own : g.isOwn with
    | false =>
      have := layers.1 rfl g hg
      rw [tells_of_mayTell mayTell own] at this
      cases this
    | true =>
      have left := (mem_ownCode own).mpr hg
      generalize x.phase = p, x.refreshing = q, x.refreshes = n, ownCode rest = o at course left
      cases course with
      | refresh p fs stays code => cases code
      | failed =>
        rw [List.mem_singleton.mp left] at mayTell
        cases mayTell

/-- When a shutdown comes to its end, the worker that runs has ended. -/
theorem ended_of_finish (h : w.Untangled) (owned : w.Owned)
    (code : w.frames t = .finishShutdown :: rest) (running : w.connection.running = some s)
    (hx : w.workers[s]? = some x) : x.phase = .ended := by
  have finish : .finishShutdown ∈ w.frames t := by rw [code]; exact List.mem_cons_self ..
  have stopping : w.connection.stopping = true := by
    by_contra calm
    exact owned.calm (by simpa using calm) t finish
  obtain ⟨t', r, k, closing, running', -, only⟩ := owned.closing stopping
  obtain rfl := only t finish
  obtain rfl : r = s := by
    rw [running] at running'
    exact (Option.some.inj running').symm
  obtain ⟨gs, hgs, -⟩ := closing.code
  obtain ⟨-, next⟩ := shutdownCode_next closing.left (code.symm.trans hgs)
  obtain rfl : k = 4 := by simpa using next
  refine closing.ended (by omega) ?_ x hx
  rintro rfl
  exact h.offThread r finish

theorem engaged_step (h : w.Untangled) (hs : w.Sound) (owned : w.Owned) (ok : w.OffThread m)
    (step : WorldStep w m v) (hy : v.workers[s]? = some y) (engaged : y.IsEngaged) :
    v.connection.running = some s ∧
      (v.connection.state ≠ .notInitialized ∨ v.connection.stopping = true) := by
  obtain ⟨x, hx, worker⟩ | ⟨rfl, t, cb, rest, rfl, code, rfl⟩ := step.cameFrom hy
  · have before := worker.engaged (hs.courses s x hx) engaged
    obtain ⟨running, busy⟩ := h.engaged s x hx before
    have free : ¬(w.connection.state = .notInitialized ∧ w.connection.stopping = false) := by
      rintro ⟨state, calm⟩
      obtain busy | stopping := busy
      · exact busy state
      · rw [calm] at stopping
        cases stopping
    obtain same | ⟨t, f, rest, rfl, code, change⟩ := step.connectionStep
    · rw [same]
      exact ⟨running, busy⟩
    · generalize hc : v.connection = c at change ⊢
      cases change with
      | keep => exact ⟨running, busy⟩
      | take cb state calm | start cb calm state => exact absurd ⟨state, calm⟩ free
      | mark => exact ⟨running, .inl (by simp)⟩
      | begin => exact ⟨running, .inr rfl⟩
      | fail calm state =>
        exfalso
        -- the worker itself has just failed
        obtain ⟨r, z, rfl, -⟩ := hs.worker_of_mem rfl (by rw [code]; exact List.mem_cons_self ..)
        have heard : v.connection ≠ w.connection := by
          intro same
          rw [hc] at same
          have := congrArg Connection.state same
          rw [state] at this
          cases this
        have held := held_of_mark hs owned step code (.inr rfl) heard
        obtain rfl : r = s := by
          have := (owned.held r held).1
          rw [running] at this
          exact (Option.some.inj this).symm
        have layers := h.layers (.worker r)
        rw [frames_worker hx] at code layers
        exact not_engaged_of_markFailed (hs.courses r x hx) layers worker code engaged
      | finish =>
        exfalso
        have finished := ended_of_finish h owned code running hx
        obtain stands | ⟨g, hg, mayTell⟩ := before
        · rw [Worker.stands, finished] at stands
          exact stands rfl
        · rw [h.ended s x hx finished g hg] at mayTell
          cases mayTell
  · obtain ⟨f, rest', fs, u, code', ran, rfl, -⟩ := step.ran
    rw [code] at code'
    cases code'
    rw [connection_setFrames]
    cases ran with
    | start => exact ⟨rfl, .inl (by simp)⟩
    | startStopping | startAgain =>
      have there := (List.getElem?_eq_some_iff.mp hy).1
      cases t <;> simp at there
    | own f s x x' c chain fs isHere hx own => cases own
    | stray f own => cases own

theorem delivery_step (h : w.Untangled) (step : WorldStep w m v)
    (hd : v.delivery side = some d) : ∃ r n rest, d.thread = .worker r ∧ n.side = side ∧
      .deliver n rest ∈ v.frames (.worker r) := by
  have old (before : w.delivery side = some d)
      (goesOn : ∀ n, n.side = side → m = .run d.thread →
        ∀ rest, w.frames d.thread ≠ .deliver n [] :: rest) : ∃ r n rest, d.thread = .worker r ∧
          n.side = side ∧ .deliver n rest ∈ v.frames (.worker r) := by
    obtain ⟨r, n, rest, thread, hn, inCode⟩ := h.delivery side d before
    obtain stays | ⟨rest', fs, u, rfl, code, ran, -, now⟩ := step.frame inCode
    · exact ⟨r, n, rest, thread, hn, stays⟩
    · cases ran with
      | delivered => exact absurd code (thread ▸ goesOn n hn (by rw [thread]) rest')
      | deliver n o rest =>
        exact ⟨r, n, rest, thread, hn, by rw [now]; simp⟩
      | own f s z x' c chain fs isHere hz own => cases own
      | stray f own => cases own
  cases m with
  | run t =>
    obtain ⟨f, rest, fs, u, code, ran, rfl, now⟩ := step.ran
    have same : (u.setFrames t (fs ++ rest)).delivery side = u.delivery side := by cases t <;> rfl
    rw [same] at hd
    obtain kept | ⟨n, r, rfl, hn, begun, rfl⟩ | ⟨n, rfl, hn, none⟩ := ran.delivery side
    · refine old (kept ▸ hd) fun n hn here rest' code' => ?_
      cases here
      rw [code] at code'
      obtain ⟨rfl, -⟩ := List.cons.inj code'
      cases ran with
      | delivered =>
        have none : (w.setDelivery n.side none).delivery side = none := by
          rw [hn]
          cases side <;> rfl
        rw [none] at hd
        cases hd
      | own f s z x' c chain fs isHere hz own => cases own
      | stray f own => cases own
    · rw [begun] at hd
      cases hd
      cases t with
      | caller k =>
        have := h.callers k (.notify n) (by rw [code]; exact List.mem_cons_self ..)
        cases this
      | worker p => exact ⟨p, n, r, rfl, hn, by rw [now]; exact List.mem_cons_self ..⟩
    · rw [none] at hd
      cases hd
  | call | release | reply | turn =>
    refine old ?_ (fun _ _ here => by cases here)
    cases step
    exact hd

theorem joined_step (h : w.Untangled) (hs : w.Sound) (owned : w.Owned) (step : WorldStep w m v)
    (hf : v.frames t = .join q :: rest) : ∃ x, v.workers[q]? = some x ∧ x.stopped = true := by
  have thread := step.threadStep t
  generalize hw : w.frames t = code, hv : v.frames t = code' at thread
  rw [hv] at hf
  cases thread with
  | same =>
    obtain ⟨x, hx, stopped⟩ := h.joined t q rest (hw.trans hf)
    obtain ⟨y, hy, worker⟩ := step.workerStep hx
    exact ⟨y, hy, worker.stopped stopped⟩
  | run f rest' fs u here code ran result =>
    have stack := hs.stacked t
    rw [code] at stack
    cases stops : f.stops with
    | false =>
      exfalso
      -- a join is pushed below a signal
      obtain plain | ⟨cb, s, rfl, rfl⟩ | ⟨src, a, s, rfl, rfl⟩ := Stack.pushed ran stops
      · cases fs with
        | cons g fs =>
          obtain ⟨rfl, -⟩ := List.cons.inj hf
          cases plain.stays (List.mem_cons_self ..)
        | nil =>
          have below : rest' = .join q :: rest := hf
          rw [below] at stack
          rw [signal_of_join stack] at stops
          cases stops
      · cases hf
      · cases hf
    | true =>
      rw [Stack.pushed_of_stops ran stops] at hf
      have below : rest' = .join q :: rest := hf
      rw [below] at stack
      have signal := signal_of_join stack
      subst signal
      obtain ⟨there, -⟩ := owned.signalled t q (by rw [code]; exact List.mem_cons_self ..)
      obtain ⟨x, hx⟩ : ∃ x, w.workers[q]? = some x := ⟨_, List.getElem?_eq_getElem there⟩
      obtain ⟨y, hy, worker⟩ := step.workerStep hx
      refine ⟨y, hy, ?_⟩
      cases ran with
      | signal =>
        rw [result] at hy
        obtain ⟨z, hz, same⟩ := worker_of_setFrames hy
        simp only [List.getElem?_modify, hx, if_true, Option.map_eq_map, Option.map_some,
          Option.some.injEq] at hz
        rw [same, ← hz]
      | own f s z x' c chain fs isHere hz own => cases own
      | stray f own => cases own
  | call | release | started => cases hf
  | turn s k x x' es here turn hx idle step =>
    cases (step.code idle).isPushed _ (hf ▸ List.mem_cons_self ..)

theorem later_step (h : w.Untangled) (hs : w.Sound) (owned : w.Owned) (ok : w.OffThread m)
    (step : WorldStep w m v) (hq : .join q ∈ v.frames (.worker p)) :
    p ≤ q ∧ ∀ g ∈ v.frames (.worker p), g.delivers = false := by
  have thread := step.threadStep (.worker p)
  generalize hw : w.frames (.worker p) = code, hv : v.frames (.worker p) = code' at thread
  rw [hv] at hq
  cases thread with
  | same =>
    have := h.later p q (hw ▸ hq)
    rwa [hw] at this
  | run f rest fs u here code ran result =>
    subst here
    obtain ⟨x, hx, hf⟩ := worker_of_frames code
    have there := (List.getElem?_eq_some_iff.mp hx).1
    rcases List.mem_append.mp hq with pushed | left
    · have stops : f.stops = false := by
        by_contra stops
        rw [Stack.pushed_of_stops ran (by simpa using stops)] at pushed
        cases pushed
      obtain plain | ⟨cb, s, rfl, rfl⟩ | ⟨src, a, s, rfl, rfl⟩ := Stack.pushed ran stops
      · cases plain.stays pushed
      · have same : q = s := by simpa using pushed
        subst same
        cases ran with
        | takeStale cb s state calm held =>
          obtain ⟨running, -, -⟩ := owned.held q held
          have last := (owned.running q running).1
          refine ⟨by omega, fun g hg => ?_⟩
          rcases List.mem_append.mp hg with hg | hg
          · simp only [List.mem_cons, List.not_mem_nil, or_false] at hg
            rcases hg with rfl | rfl | rfl <;> rfl
          · by_contra delivers
            have mayTell := mayTell_of_delivers (f := g) (by simpa using delivers)
            obtain ⟨-, busy | stopping⟩ := h.engaged p x hx
              (.inr ⟨g, by rw [hf]; exact List.mem_cons_of_mem _ hg, mayTell⟩)
            · exact busy state
            · rw [calm] at stopping
              cases stopping
        | own f s z x' c chain fs isHere hz own => cases own
      · exact absurd code (ok p src a rest rfl)
    · obtain ⟨le, quiet⟩ := h.later p q (by rw [code]; exact List.mem_cons_of_mem _ left)
      rw [code] at quiet
      refine ⟨le, fun g hg => ?_⟩
      rcases List.mem_append.mp hg with pushed | hg
      · refine ran.delivers ?_ g pushed
        -- what is about to tell something stands on no join
        have stack := hs.stacked (.worker p)
        rw [code] at stack
        cases f with
        | notify n =>
          have plain := (Stack.plain_of_head stack rfl (by simp)).tail
          cases plain.stays left
        | deliver n ids => cases quiet _ (List.mem_cons_self ..)
        | _ => rfl
      · exact quiet g (List.mem_cons_of_mem _ hg)
  | call n a here => cases here
  | release n here => cases here
  | started => simp at hq
  | turn s k x x' es here turn hx idle step => cases (step.code idle).isPushed _ hq

end Steps

namespace Untangled
variable {w v : World} {m : Move}

theorem of_untouched (h : w.Untouched) : w.Untangled := by
  constructor
  · intro t
    rw [h.frames]
    trivial
  · intro n g hg
    rw [h.frames] at hg
    cases hg
  · intro s x hx
    rw [h.workers] at hx
    cases hx
  · intro s hs
    rw [h.frames] at hs
    cases hs
  · intro s x hx
    rw [h.workers] at hx
    cases hx
  · intro side d hd
    obtain ⟨n, timeout, transport, reaction, kept, rfl⟩ := h
    cases side <;> cases hd
  · intro t q rest ht
    rw [h.frames] at ht
    cases ht
  · intro p q hq
    rw [h.frames] at hq
    cases hq

theorem step (h : w.Untangled) (hs : w.Sound) (owned : w.Owned) (ok : w.OffThread m)
    (step : WorldStep w m v) : v.Untangled where
  layers t := (h.layers t).step (step.threadStep t)
  callers := callers_step h hs step
  ended s y hy ended := by
    obtain ⟨x, hx, worker⟩ | ⟨-, t, cb, rest, -, -, rfl⟩ := step.cameFrom hy
    · have layers := h.layers (.worker s)
      rw [frames_worker hx] at layers
      exact ended_step (hs.courses s x hx) layers (h.ended s x hx) worker ended
    · cases ended
  offThread := offThread_step h ok step
  engaged s y hy engaged := engaged_step h hs owned ok step hy engaged
  delivery side d hd := delivery_step h step hd
  joined t q rest ht := joined_step h hs owned step ht
  later p q hq := later_step h hs owned ok step hq

/-- In every world of a run in which no worker shuts down, threads are untangled. -/
theorem of_reaches (first : w.Untouched) (run : ReachesBy OffThread w v) : v.Untangled := by
  have all := run.keeps (P := fun w => w.Sound ∧ w.Owned ∧ w.Untangled)
    ⟨.of_untouched first, .of_untouched first, of_untouched first⟩ fun w m v before ok step => by
      obtain ⟨sound, owned, untangled⟩ := before
      exact ⟨sound.step step, owned.step sound ok.orderly step, untangled.step sound owned ok step⟩
  exact all.2.2

end Untangled

/-- Nothing happens by itself any more: no thread can run, and no worker can take a turn, except
that one that was not told to stop may wake for its next refresh. -/
structure AtRest (w : World) : Prop where
  threads : ∀ t, w.step (.run t) = none
  workers : ∀ (s : Nat) (x : Worker) (k : Turn), w.workers[s]? = some x →
    (k = .wake → x.stopped = true) → w.step (.turn s k) = none

section Resting
variable {w : World} {t : Thread} {f : Frame} {rest : List Frame} {s p q : Nat} {x : Worker}

/-- What a thread waits for when it cannot run. -/
theorem blocked (stuck : w.step (.run t) = none) (code : w.frames t = f :: rest) :
    (∃ q, f = .join q ∧ t ≠ .worker q ∧ w.hasEnded q = false) ∨
      (∃ src a, f = .beginShutdown src a ∧ w.connection.stopping = true) ∨
      (∃ n d, f = .notify n ∧ w.delivery n.side = some d) ∨
      ∃ side d, f = .awaitDelivery side ∧ w.delivery side = some d ∧ d.thread ≠ t := by
  have none : w.runFrame t f = none := by
    cases ran : w.runFrame t f with
    | none => rfl
    | some r =>
      rw [step_run code ran] at stuck
      cases stuck
  cases f with
  | join q =>
    left
    simp only [runFrame, ite_eq_right_iff, reduceCtorEq, imp_false, not_or] at none
    exact ⟨q, rfl, none.1, by simpa using none.2⟩
  | beginShutdown src a =>
    refine .inr (.inl ⟨src, a, rfl, ?_⟩)
    by_contra calm
    simp only [runFrame, World.beginShutdown, Connection.beginShutdown, calm] at none
    cases held : w.connection.worker <;> simp [held] at none
  | notify n =>
    refine .inr (.inr (.inl ?_))
    simp only [runFrame, World.notify] at none
    cases hd : w.delivery n.side with
    | some d => exact ⟨n, d, rfl, hd⟩
    | none =>
      simp only [hd] at none
      split at none <;> cases none
  | awaitDelivery side =>
    refine .inr (.inr (.inr ?_))
    simp only [runFrame] at none
    cases hd : w.delivery side with
    | none => simp [hd] at none
    | some d =>
      simp only [hd, ite_eq_right_iff, reduceCtorEq, imp_false] at none
      exact ⟨side, d, rfl, hd, none⟩
  | takeStale cb => simp only [runFrame] at none; split at none <;> cases none
  | dispatch j => simp only [runFrame] at none; split at none <;> cases none
  | script | returning | start | signal | forgetChain | forgetFeeAddress | finishShutdown
  | enqueue | conclude | complete | deliver | markFailed => cases none
  | _ =>
    cases t with
    | caller n => cases none
    | worker s =>
      cases hx : w.workers[s]? <;> simp [runFrame, hx] at none

/-- A worker that another thread waits for has code left. -/
theorem AtRest.busy (atRest : w.AtRest) (hs : w.Sound) (untangled : w.Untangled)
    (code : w.frames t = .join q :: rest) (stays : w.hasEnded q = false) :
    w.frames (.worker q) ≠ [] := by
  intro idle
  obtain ⟨x, hx, stopped⟩ := untangled.joined t q rest code
  rw [frames_worker hx] at idle
  have stays : x.phase ≠ .ended := by simpa [hasEnded, hx] using stays
  obtain ⟨k, moves⟩ := exists_turn hs hx idle stopped stays
  rw [atRest.workers q x k hx fun _ => stopped] at moves
  cases moves

/-- Where nothing happens by itself, nobody is being told anything. -/
theorem AtRest.no_delivery (atRest : w.AtRest) (untangled : w.Untangled)
    (off : ∀ s src a rest, w.frames (.worker s) ≠ .beginShutdown src a :: rest)
    (side : Observer.Side) : w.delivery side = none := by
  cases hd : w.delivery side with
  | none => rfl
  | some d =>
    exfalso
    obtain ⟨r, n, ids, -, -, inCode⟩ := untangled.delivery side d hd
    have runs {r : Nat} {n : Observer.Notice} {ids : List Observer.Id}
        (inCode : .deliver n ids ∈ w.frames (.worker r)) : w.connection.running = some r := by
      obtain ⟨f, rest, hf⟩ := List.exists_cons_of_ne_nil (List.ne_nil_of_mem inCode)
      obtain ⟨x, hx, -⟩ := worker_of_frames hf
      exact (untangled.engaged r x hx (.inr ⟨_, frames_worker hx ▸ inCode, rfl⟩)).1
    obtain ⟨f, rest, code⟩ := List.exists_cons_of_ne_nil (List.ne_nil_of_mem inCode)
    obtain ⟨q, rfl, -⟩ | ⟨src, a, rfl, -⟩ | ⟨n', d', rfl, -⟩ | ⟨side', d', rfl, hd', other⟩ :=
      blocked (atRest.threads (.worker r)) code
    · have := (untangled.later r q (by rw [code]; exact List.mem_cons_self ..)).2 _ inCode
      cases this
    · exact off r src a rest code
    · have layers := untangled.layers (.worker r)
      rw [code] at layers inCode
      rcases List.mem_cons.mp inCode with same | below
      · cases same
      · have := layers.2.1 n' rfl _ below
        cases this
    · -- the one who tells something is the worker that runs, on either side
      obtain ⟨r', n', ids', thread, -, inCode'⟩ := untangled.delivery side' d' hd'
      have same := (runs inCode).symm.trans (runs inCode')
      rw [thread, Option.some.inj same] at other
      exact other rfl

/-- Where nothing happens by itself, no code is left. -/
theorem AtRest.frames_nil (atRest : w.AtRest) (hs : w.Sound) (owned : w.Owned)
    (untangled : w.Untangled)
    (off : ∀ s src a rest, w.frames (.worker s) ≠ .beginShutdown src a :: rest) (t : Thread) :
    w.frames t = [] := by
  have joins {t : Thread} {f : Frame} {rest : List Frame} (code : w.frames t = f :: rest) :
      (∃ q, f = .join q ∧ t ≠ .worker q ∧ w.hasEnded q = false) ∨
        ∃ src a, f = .beginShutdown src a ∧ w.connection.stopping = true := by
    obtain join | begin | ⟨n, d, -, hd⟩ | ⟨side, d, -, hd, -⟩ := blocked (atRest.threads t) code
    · exact .inl join
    · exact .inr begin
    · rw [atRest.no_delivery untangled off] at hd
      cases hd
    · rw [atRest.no_delivery untangled off] at hd
      cases hd
  -- a worker waits for a later one, which has code left as well
  have workers (k : Nat) : ∀ p, w.workers.length - p = k → w.frames (.worker p) = [] := by
    induction k using Nat.strongRecOn with
    | _ k ih =>
      intro p hp
      cases code : w.frames (.worker p) with
      | nil => rfl
      | cons f rest =>
        exfalso
        obtain ⟨q, rfl, other, stays⟩ | ⟨src, a, rfl, -⟩ := joins code
        · have le := (untangled.later p q (by rw [code]; exact List.mem_cons_self ..)).1
          have ne : p ≠ q := fun same => other (same ▸ rfl)
          obtain ⟨x, hx, -⟩ := untangled.joined _ q rest code
          have there := (List.getElem?_eq_some_iff.mp hx).1
          exact atRest.busy hs untangled code stays (ih _ (by omega) q rfl)
        · exact off p src a rest code
  cases t with
  | worker p => exact workers _ p rfl
  | caller n =>
    have noJoin {t : Thread} {q : Nat} {rest : List Frame} (code : w.frames t = .join q :: rest)
        (stays : w.hasEnded q = false) : False :=
      atRest.busy hs untangled code stays (workers _ q rfl)
    cases code : w.frames (.caller n) with
    | nil => rfl
    | cons f rest =>
      exfalso
      obtain ⟨q, rfl, -, stays⟩ | ⟨src, a, -, stopping⟩ := joins code
      · exact noJoin code stays
      · -- the shutdown under way goes on
        obtain ⟨t', r, k, closing, -⟩ := owned.closing stopping
        obtain ⟨gs, hgs, -⟩ := closing.code
        have left := closing.left
        obtain ⟨g, hs', more⟩ : ∃ g hs', (shutdownCode r).drop k ++ gs = g :: hs' := by
          match k, left with
          | 0, _ | 1, _ | 2, _ | 3, _ | 4, _ => exact ⟨_, _, rfl⟩
        rw [more] at hgs
        obtain ⟨-, next⟩ := shutdownCode_next left more.symm
        obtain ⟨q, rfl, -, stays⟩ | ⟨src, a, rfl, -⟩ := joins hgs
        · exact noJoin hgs stays
        · simp at next

end Resting

end World

end RemoteNode.Session
