import RemoteNode.Proofs.Session.Addresses
import RemoteNode.Proofs.Session.Clearing

/-! Where the fee address comes from. Only the worker that has the session brings one, and it is
forgotten with the session; so what is known is what that worker brought last. This holds of every
run. -/

namespace RemoteNode.Session

namespace World

/-- A worker has the session: its handle is held and the connection is initialized, or it is being
shut down. -/
def InSession (w : World) (s : Nat) : Prop :=
  w.connection.worker = some s ∧ w.connection.state = .initialized ∨
    w.connection.stopping = true ∧ w.connection.running = some s

/-- A worker may have jobs: it has the session, was told to stop or has ended. -/
def Engages (w : World) (s : Nat) (x : Worker) : Prop :=
  w.InSession s ∨ x.stopped = true ∨ x.phase = .ended

/-- A thread ends the session of a worker and has come so far. -/
structure Ending (w : World) (t : Thread) (r k : Nat) : Prop where
  halting : w.Halting t r k
  there : r < w.workers.length
  running : w.connection.running = some r
  stopping : w.connection.stopping = true
  vacant : w.connection.worker = none
  only : ∀ t', .finishShutdown ∈ w.frames t' → t' = t

/-- The fee address is what the worker of the session has brought last, until it is forgotten with
the session. -/
structure Sourced (h : List (World × Move)) (w : World) : Prop where
  held : ∀ s, w.connection.worker = some s → w.connection.running = some s ∧
    w.connection.stopping = false ∧ w.feeAddress = (lastBrought s h).getD "" ∧
      (w.connection.state ≠ .initialized → lastBrought s h = none)
  vacant : w.connection.worker = none → w.connection.stopping = false → w.feeAddress = ""
  closing : w.connection.stopping = true → ∃ t r k, w.Ending t r k ∧
    w.feeAddress = if k ≤ 3 then (lastBrought r h).getD "" else ""
  calm : w.connection.stopping = false → ∀ t, .finishShutdown ∉ w.frames t
  young : ∀ s, w.workers.length ≤ s → lastBrought s h = none
  jobs : ∀ (s : Nat) (x : Worker), w.workers[s]? = some x → x.IsJobless ∨ w.Engages s x
  brought : ∀ t s j x, .enqueue s j ∈ w.frames t → w.workers[s]? = some x → w.Engages s x
  concluding : ∀ (s : Nat) (x : Worker) (f : Frame), w.workers[s]? = some x → f ∈ x.frames →
    f.concludes = true → w.InSession s

section Sourcing
variable {w v : World} {m : Move} {t : Thread} {s r k : Nat} {x y : Worker} {f : Frame}
  {past : List (World × Move)}

theorem connection_of_stopping (step : WorldStep w m v) (stopping : w.connection.stopping = true) :
    v.connection = w.connection ∨ ∃ t rest, m = .run t ∧ w.frames t = .finishShutdown :: rest ∧
      v.connection = w.connection.finishShutdown := by
  obtain same | ⟨t, f, rest, rfl, code, change⟩ := step.connectionStep
  · exact .inl same
  · generalize v.connection = c at change
    have busy (calm : w.connection.stopping = false) : False := by
      rw [stopping] at calm
      cases calm
    cases change with
    | keep => exact .inl rfl
    | take cb state calm | start cb calm state | fail calm state => exact (busy calm).elim
    | mark s here calm state => exact (busy calm).elim
    | begin src a s calm held => exact (busy calm).elim
    | finish => exact .inr ⟨t, rest, rfl, code, rfl⟩

namespace Ending

theorem next (h : w.Ending t r k) {rest : List Frame} (code : w.frames t = f :: rest) :
    k = 0 ∧ f = .signal r ∨ k = 1 ∧ f = .join r ∨ k = 2 ∧ f = .forgetChain ∨
      k = 3 ∧ f = .forgetFeeAddress ∨ k = 4 ∧ f = .finishShutdown := by
  obtain ⟨gs, code', -⟩ := h.halting.code
  exact (shutdownCode_next h.halting.left (code.symm.trans code')).2

theorem step (h : w.Ending t r k) (hs : w.Sound) (step : WorldStep w m v) :
    m = .run t ∧ k = 4 ∧ v.connection = .initial ∨
      ∃ k', v.Ending t r k' ∧ (m = .run t ∧ k < 4 ∧ k' = k + 1 ∨ m ≠ .run t ∧ k' = k) := by
  have goes {k' : Nat} (halting : v.Halting t r k') (same : v.connection = w.connection) :
      v.Ending t r k' := by
    refine ⟨halting, ?_, same ▸ h.running, same ▸ h.stopping, same ▸ h.vacant, fun t' finishes =>
      h.only t' (finishes_source h.vacant (step.threadStep t') finishes)⟩
    have there := h.there
    obtain same | ⟨more, -⟩ := step.length_workers <;> omega
  have finish : m = .run t ∧ k = 4 ∧ v.connection = w.connection.finishShutdown ∨
      v.connection = w.connection ∧ ¬(m = .run t ∧ k = 4) := by
    obtain same | ⟨t', rest, rfl, code, now⟩ := connection_of_stopping step h.stopping
    · refine .inr ⟨same, ?_⟩
      rintro ⟨rfl, rfl⟩
      obtain ⟨f, rest, fs, u, code, ran, rfl, -⟩ := step.ran
      obtain rfl : f = .finishShutdown := by simpa using h.next code
      rw [connection_setFrames] at same
      cases ran with
      | finishShutdown =>
        have stopping := h.stopping
        rw [← same] at stopping
        cases stopping
      | own f s x x' c chain fs isHere hx own => cases own
      | stray f own => cases own
    · obtain rfl := h.only t' (by rw [code]; exact List.mem_cons_self ..)
      exact .inl ⟨rfl, by simpa using h.next code, now⟩
  obtain ⟨here, last, now⟩ | ⟨same, more⟩ := finish
  · refine .inl ⟨here, last, ?_⟩
    rw [now, Connection.finishShutdown, h.vacant]
    rfl
  · obtain finished | ⟨here, left, halting⟩ | ⟨away, halting⟩ := h.halting.step hs h.there step
    · exact absurd finished more
    · exact .inr ⟨k + 1, goes halting same, .inl ⟨here, left, rfl⟩⟩
    · exact .inr ⟨k, goes halting same, .inr ⟨away, rfl⟩⟩

theorem quiet (h : w.Ending t r k) (hs : w.Sound) (serving : w.Serving) (waited : 1 < k)
    (hx : w.workers[r]? = some x) (hf : f ∈ x.frames) : f.concludes = false := by
  by_cases here : t = .worker r
  · by_contra concludes
    have alone := ((serving.workers r x hx).alone f hf (by simpa using concludes)).1
    have code : w.frames t = [f] := by rw [here, frames_worker hx, alone]
    obtain ⟨-, rfl⟩ | ⟨-, rfl⟩ | ⟨-, rfl⟩ | ⟨-, rfl⟩ | ⟨-, rfl⟩ := h.next code
    all_goals exact concludes rfl
  · have ended := h.halting.ended waited here x hx
    exact (quiet_of_ended (hs.courses r x hx) (serving.workers r x hx) ended).2 f hf

end Ending

theorem ending_of_begin (hs : w.Sound) (peopled : w.Peopled) {src : Source} {a : Act}
    {rest : List Frame} (calm : ∀ t, .finishShutdown ∉ w.frames t)
    (code : w.frames t = .beginShutdown src a :: rest) (going : w.connection.stopping = false)
    (held : w.connection.worker = some r) (running : w.connection.running = some r)
    (step : WorldStep w (.run t) v) : v.Ending t r 0 := by
  obtain ⟨now, same⟩ := begun code held going step
  have plain : Plain (.beginShutdown src a :: rest) :=
    (code ▸ hs.stacked t).plain_of_head rfl (by simp)
  refine ⟨⟨by omega, ⟨_, now, .cons _ _ rfl (by simp) plain.tail⟩, by omega, by omega⟩, ?_, ?_, ?_,
    ?_, fun t' finishes => ?_⟩
  · have there := peopled.held r held
    obtain same | ⟨more, -⟩ := step.length_workers <;> omega
  · rw [same, running]
  · rw [same]
  · rw [same]
  · obtain before | ⟨cb, r, gs, -, -, stops⟩ | ⟨src', a', r, gs, here, -⟩ :=
      Stack.source (step.threadStep t') rfl finishes
    · exact absurd before (calm t')
    · simp at stops
    · cases here
      rfl

namespace Sourced

/-- Where no session is, there is no fee address. -/
theorem fee_empty (h : w.Sourced past) (calm : w.connection.stopping = false)
    (state : w.connection.state ≠ .initialized) : w.feeAddress = "" := by
  cases held : w.connection.worker with
  | none => exact h.vacant held calm
  | some s =>
    obtain ⟨-, -, fee, none⟩ := h.held s held
    rw [fee, none state]
    rfl

/-- A worker has the session until it is shut down. -/
theorem session_step (h : w.Sourced past) (hs : w.Sound) (step : WorldStep w m v)
    (here : w.InSession s) : v.InSession s ∨ ∃ t, m = .run t ∧ w.Ending t s 4 := by
  obtain ⟨held, state⟩ | ⟨stopping, running⟩ := here
  · obtain ⟨running, calm, -⟩ := h.held s held
    left
    obtain same | ⟨t, f, rest, rfl, code, change⟩ := step.connectionStep
    · exact .inl ⟨same ▸ held, same ▸ state⟩
    · have initial (none : w.connection.state = .notInitialized) : False := by
        rw [state] at none
        cases none
      have opening (opening : w.connection.state = .initializing) : False := by
        rw [state] at opening
        cases opening
      rw [InSession]
      generalize v.connection = c at change
      cases change with
      | keep => exact .inl ⟨held, state⟩
      | take cb state' | start cb calm state' => exact (initial state').elim
      | mark s here calm state' => exact (opening state').elim
      | fail calm state' => exact (opening state').elim
      | begin src a r calm held' =>
        obtain rfl := Option.some.inj (held.symm.trans held')
        exact .inr ⟨rfl, running⟩
      | finish => exact absurd (by rw [code]; exact List.mem_cons_self ..) (h.calm calm t)
  · obtain ⟨t, r, k, ending, -⟩ := h.closing stopping
    obtain rfl := Option.some.inj (ending.running.symm.trans running)
    obtain ⟨here, rfl, -⟩ | ⟨k', ending', -⟩ := ending.step hs step
    · exact .inr ⟨t, here, ending⟩
    · exact .inl (.inr ⟨ending'.stopping, ending'.running⟩)

theorem engages_step (h : w.Sourced past) (hs : w.Sound) (step : WorldStep w m v)
    (hx : w.workers[s]? = some x) (worker : WorkerStep w m s x y) (engages : w.Engages s x) :
    v.Engages s y := by
  obtain here | stopped | ended := engages
  · obtain here | ⟨t, -, ending⟩ := h.session_step hs step here
    · exact .inl here
    · exact .inr (.inl (worker.stopped (ending.halting.stopped (by omega) x hx)))
  · exact .inr (.inl (worker.stopped stopped))
  · exact .inr (.inr (worker.ended (hs.courses s x hx) ended))

/-- The worker that brings an address has the session. -/
theorem held_step (h : w.Sourced past) (hs : w.Sound) (serving : w.Serving)
    (step : WorldStep w m v) (held : v.connection.worker = some s) :
    v.connection.running = some s ∧ v.connection.stopping = false ∧
      v.feeAddress = (lastBrought s ((w, m) :: past)).getD "" ∧
        (v.connection.state ≠ .initialized → lastBrought s ((w, m) :: past) = none) := by
  cases step.feeStep serving with
  | keep same nothing =>
    rw [lastBrought_of_none (nothing s), same]
    obtain still | ⟨t, f, rest, rfl, code, change⟩ := step.connectionStep
    · rw [still] at held ⊢
      exact h.held s held
    · generalize v.connection = c at change held
      cases change with
      | keep => exact h.held s held
      | take | begin => cases held
      | start cb calm state =>
        obtain rfl := Option.some.inj held
        have none := h.young _ (Nat.le_refl _)
        refine ⟨rfl, rfl, ?_, fun _ => none⟩
        rw [none, h.fee_empty calm (by rw [state]; simp)]
        rfl
      | mark r here calm state =>
        obtain ⟨running, calm, fee, -⟩ := h.held s held
        exact ⟨running, calm, fee, fun other => absurd rfl other⟩
      | fail calm state =>
        obtain ⟨running, calm, fee, none⟩ := h.held s held
        exact ⟨running, calm, fee, fun _ => none (by rw [state]; simp)⟩
      | finish =>
        have held : w.connection.worker = some s := held
        obtain ⟨-, calm, -⟩ := h.held s held
        exact absurd (by rw [code]; exact List.mem_cons_self ..) (h.calm calm t)
  | forget t rest here code now still nothing =>
    rw [still] at held
    obtain ⟨-, calm, -⟩ := h.held s held
    have finishes := Stack.finishes (code ▸ hs.stacked t)
    exact absurd (by rw [code]; exact List.mem_cons_of_mem _ finishes) (h.calm calm t)
  | bring r x f address here hx code concludes brought now still alone =>
    rw [still] at held ⊢
    obtain ⟨running, calm, -⟩ := h.held s held
    obtain ⟨held', state⟩ | ⟨stopping, -⟩ :=
      h.concluding r x f hx (by rw [code]; exact List.mem_cons_self ..) concludes
    · obtain rfl := Option.some.inj (held'.symm.trans held)
      refine ⟨running, calm, ?_, fun other => absurd state other⟩
      rw [lastBrought_of_some brought, now]
      rfl
    · rw [calm] at stopping
      cases stopping

/-- Whoever brings a result while a session ends is its worker, which is still waited for. -/
theorem bringer (h : w.Sourced past) (hs : w.Sound) (serving : w.Serving) (ending : w.Ending t r k)
    (hx : w.workers[s]? = some x) (hf : f ∈ x.frames) (concludes : f.concludes = true) :
    s = r ∧ k ≤ 1 := by
  obtain ⟨held, -⟩ | ⟨-, running⟩ := h.concluding s x f hx hf concludes
  · rw [ending.vacant] at held
    cases held
  · obtain rfl := Option.some.inj (running.symm.trans ending.running)
    refine ⟨rfl, ?_⟩
    by_contra waited
    rw [ending.quiet hs serving (by omega) hx hf] at concludes
    cases concludes

theorem ending_step (h : w.Sourced past) (hs : w.Sound) (serving : w.Serving)
    (step : WorldStep w m v) (ending : w.Ending t r k)
    (fee : w.feeAddress = if k ≤ 3 then (lastBrought r past).getD "" else "") {k' : Nat}
    (goes : m = .run t ∧ k < 4 ∧ k' = k + 1 ∨ m ≠ .run t ∧ k' = k) :
    v.feeAddress = if k' ≤ 3 then (lastBrought r ((w, m) :: past)).getD "" else "" := by
  cases step.feeStep serving with
  | keep same nothing remembers =>
    rw [lastBrought_of_none (nothing r), same, fee]
    -- it would be forgotten between the third frame and the fourth
    have unforgotten : ¬(m = .run t ∧ k = 3) := by
      rintro ⟨rfl, rfl⟩
      obtain ⟨f, rest, fs, u, code, -⟩ := step.ran
      obtain rfl : f = .forgetFeeAddress := by simpa using ending.next code
      exact remembers t rest rfl code
    obtain ⟨here, left, rfl⟩ | ⟨-, rfl⟩ := goes
    · have other : k ≠ 3 := fun last => unforgotten ⟨here, last⟩
      rw [if_pos (by omega), if_pos (by omega)]
    · rfl
  | forget t' rest here code now still nothing =>
    have finishes := Stack.finishes (code ▸ hs.stacked t')
    obtain rfl := ending.only t' (by rw [code]; exact List.mem_cons_of_mem _ finishes)
    have third : k = 3 := by simpa using ending.next code
    obtain ⟨-, -, rfl⟩ | ⟨away, -⟩ := goes
    · rw [if_neg (by omega), now]
    · exact absurd here away
  | bring s x f address here hx code concludes brought now still alone =>
    obtain ⟨rfl, early⟩ :=
      h.bringer hs serving ending hx (by rw [code]; exact List.mem_cons_self ..) concludes
    rw [if_pos (by omega), lastBrought_of_some brought, now]
    rfl

/-- Where nobody is shut down and no handle is held, there is no fee address. -/
theorem vacant_step (h : w.Sourced past) (hs : w.Sound) (serving : w.Serving)
    (step : WorldStep w m v) (vacant : v.connection.worker = none)
    (calm : v.connection.stopping = false) : v.feeAddress = "" := by
  by_cases stopping : w.connection.stopping = true
  · obtain ⟨t, r, k, ending, fee⟩ := h.closing stopping
    obtain ⟨-, rfl, -⟩ | ⟨k', ending', -⟩ := ending.step hs step
    · cases step.feeStep serving with
      | keep same => exact same.trans fee
      | forget t rest here code now => exact now
      | bring s x f address here hx code concludes =>
        have := (h.bringer hs serving ending hx
          (by rw [code]; exact List.mem_cons_self ..) concludes).2
        omega
    · rw [ending'.stopping] at calm
      cases calm
  · have going : w.connection.stopping = false := by simpa using stopping
    cases step.feeStep serving with
    | keep same =>
      rw [same]
      obtain still | ⟨t, f, rest, rfl, code, change⟩ := step.connectionStep
      · exact h.vacant (still ▸ vacant) going
      · generalize v.connection = c at change vacant calm
        cases change with
        | keep | mark | fail => exact h.vacant vacant going
        | take cb state => exact h.fee_empty going (by rw [state]; simp)
        | start => cases vacant
        | begin => cases calm
        | finish => exact absurd (by rw [code]; exact List.mem_cons_self ..) (h.calm going t)
    | forget t rest here code now => exact now
    | bring s x f address here hx code concludes brought now still =>
      rw [still] at vacant
      obtain ⟨held, -⟩ | ⟨busy, -⟩ :=
        h.concluding s x f hx (by rw [code]; exact List.mem_cons_self ..) concludes
      · rw [vacant] at held
        cases held
      · exact absurd busy stopping

theorem closing_step (h : w.Sourced past) (hs : w.Sound) (serving : w.Serving)
    (peopled : w.Peopled) (step : WorldStep w m v) (stopping : v.connection.stopping = true) :
    ∃ t r k, v.Ending t r k ∧
      v.feeAddress = if k ≤ 3 then (lastBrought r ((w, m) :: past)).getD "" else "" := by
  by_cases before : w.connection.stopping = true
  · obtain ⟨t, r, k, ending, fee⟩ := h.closing before
    obtain ⟨-, -, now⟩ | ⟨k', ending', goes⟩ := ending.step hs step
    · rw [now] at stopping
      cases stopping
    · exact ⟨t, r, k', ending', h.ending_step hs serving step ending fee goes⟩
  · have going : w.connection.stopping = false := by simpa using before
    obtain still | ⟨t, f, rest, rfl, code, change⟩ := step.connectionStep
    · rw [still] at stopping
      exact absurd stopping before
    · generalize hc : v.connection = c at change stopping
      cases change with
      | keep | mark | fail => exact absurd stopping before
      | take | start | finish => cases stopping
      | begin src a r calm held =>
        obtain ⟨running, -, fee, -⟩ := h.held r held
        refine ⟨t, r, 0, ending_of_begin hs peopled (h.calm calm) code calm held running step, ?_⟩
        cases step.feeStep serving with
        | keep same nothing =>
          rw [if_pos (by omega), lastBrought_of_none (nothing r), same, fee]
        | forget t' rest' here code' =>
          cases here
          rw [code] at code'
          cases code'
        | bring s x f address here hx code' concludes =>
          cases here
          rw [frames_worker hx, code'] at code
          obtain ⟨rfl, -⟩ := List.cons.inj code
          cases concludes

theorem calm_step (h : w.Sourced past) (hs : w.Sound) (step : WorldStep w m v)
    (calm : v.connection.stopping = false) (t : Thread) : .finishShutdown ∉ v.frames t := by
  intro finishes
  by_cases stopping : w.connection.stopping = true
  · obtain ⟨t', r, k, ending, -⟩ := h.closing stopping
    obtain ⟨rfl, rfl, -⟩ | ⟨k', ending', -⟩ := ending.step hs step
    · obtain rfl := ending.only t (finishes_source ending.vacant (step.threadStep t) finishes)
      obtain ⟨f, rest, fs, u, code, ran, -, now⟩ := step.ran
      obtain rfl : f = .finishShutdown := by simpa using ending.next code
      obtain ⟨gs, code', plain⟩ := ending.halting.code
      obtain ⟨rfl, -⟩ := shutdownCode_next ending.halting.left (code.symm.trans code')
      rw [now, Stack.pushed_of_stops ran rfl] at finishes
      cases plain.stays finishes
    · rw [ending'.stopping] at calm
      cases calm
  · have going : w.connection.stopping = false := by simpa using stopping
    obtain before | ⟨cb, r, gs, -, -, stops⟩ | ⟨src, a, r, gs, rfl, code, -⟩ :=
      Stack.source (step.threadStep t) rfl finishes
    · exact h.calm going t before
    · simp at stops
    · obtain ⟨f, rest, fs, u, code', ran, rfl, now⟩ := step.ran
      rw [code] at code'
      obtain ⟨rfl, rfl⟩ := List.cons.inj code'
      rw [connection_setFrames] at calm
      rw [now] at finishes
      cases ran with
      | beginShutdown => cases calm
      | beginNothing =>
        refine h.calm going t ?_
        rw [code]
        simpa using finishes
      | own f s x x' c chain fs isHere hx own => cases own
      | stray f own => cases own

theorem young_step (h : w.Sourced past) (serving : w.Serving) (step : WorldStep w m v)
    (young : v.workers.length ≤ s) : lastBrought s ((w, m) :: past) = none := by
  have before : w.workers.length ≤ s := by
    obtain same | ⟨more, -⟩ := step.length_workers <;> omega
  have nothing : brought? s (w, m) = none := by
    cases step.feeStep serving with
    | keep same nothing => exact nothing s
    | forget t rest here code now still nothing => exact nothing s
    | bring r x f address here hx code concludes brought now still alone =>
      refine alone s ?_
      rintro rfl
      have := (List.getElem?_eq_some_iff.mp hx).1
      omega
  rw [lastBrought_of_none nothing, h.young s before]

theorem jobs_step (h : w.Sourced past) (hs : w.Sound) (step : WorldStep w m v)
    (hy : v.workers[s]? = some y) : y.IsJobless ∨ v.Engages s y := by
  obtain ⟨x, hx, worker⟩ | ⟨-, t, cb, rest, -, -, rfl⟩ := step.cameFrom hy
  · obtain jobless | engages := h.jobs s x hx
    · refine (step.jobless hx hy jobless).imp_right ?_
      rintro ⟨t, j, rest, rfl, code⟩
      have inCode : .enqueue s j ∈ w.frames t := by rw [code]; exact List.mem_cons_self ..
      exact h.engages_step hs step hx worker (h.brought t s j x inCode hx)
    · exact .inr (h.engages_step hs step hx worker engages)
  · exact .inl ⟨rfl, by simp [Worker.new, Worker.tasks]⟩

theorem brought_step (h : w.Sourced past) (hs : w.Sound) (peopled : w.Peopled)
    (step : WorldStep w m v) {j : Job} (inCode : .enqueue s j ∈ v.frames t)
    (hy : v.workers[s]? = some y) : v.Engages s y := by
  have there : s < w.workers.length := by
    obtain old | ⟨rest, -, -, served⟩ := enqueue_source step inCode
    · exact peopled.brought t s j old
    · exact peopled.held s (worker_of_server served).2.2
  obtain ⟨x, hx, worker⟩ | ⟨new, -⟩ := step.cameFrom hy
  · refine h.engages_step hs step hx worker ?_
    obtain old | ⟨rest, -, -, served⟩ := enqueue_source step inCode
    · exact h.brought t s j x old hx
    · obtain ⟨-, state, held⟩ := worker_of_server served
      exact .inl (.inl ⟨held, state⟩)
  · omega

theorem concluding_step (h : w.Sourced past) (hs : w.Sound) (serving : w.Serving)
    (step : WorldStep w m v) (hy : v.workers[s]? = some y) (hf : f ∈ y.frames)
    (concludes : f.concludes = true) : v.InSession s := by
  have goes {x : Worker} (hx : w.workers[s]? = some x) (here : w.InSession s)
      (finished : ∀ t, m = .run t → w.Ending t s 4 → False) : v.InSession s := by
    obtain here | ⟨t, run, ending⟩ := h.session_step hs step here
    · exact here
    · exact (finished t run ending).elim
  obtain ⟨x, hx, worker⟩ | ⟨-, t, cb, rest, -, -, rfl⟩ := step.cameFrom hy
  · obtain old | ⟨i, turn, idle, going, stays⟩ := worker.concludes hf concludes
    · refine goes hx (h.concluding s x f hx old concludes) fun t run ending => ?_
      rw [ending.quiet hs serving (by omega) hx old] at concludes
      cases concludes
    · refine goes hx ?_ fun t run => by rw [turn] at run; cases run
      obtain ⟨-, none⟩ | here | stopped | ended := h.jobs s x hx
      · obtain ⟨j, es, -, -, taken, -⟩ | ⟨away, -⟩ := step.turn_or_quiet hx hy
        · obtain ⟨-, -, -, task, inTasks, job⟩ := taken.concludes idle hf concludes
          rw [none task inTasks] at job
          cases job
        · exact absurd turn (away i)
      · exact here
      · rw [going] at stopped
        cases stopped
      · exact absurd ended stays
  · simp only [Worker.new, List.mem_singleton] at hf
    subst hf
    cases concludes

theorem step (h : w.Sourced past) (hs : w.Sound) (serving : w.Serving) (peopled : w.Peopled)
    (step : WorldStep w m v) : v.Sourced ((w, m) :: past) where
  held _ held := h.held_step hs serving step held
  vacant vacant calm := h.vacant_step hs serving step vacant calm
  closing stopping := h.closing_step hs serving peopled step stopping
  calm calm t := h.calm_step hs step calm t
  young _ young := h.young_step serving step young
  jobs _ _ hy := h.jobs_step hs step hy
  brought _ _ _ _ inCode hy := h.brought_step hs peopled step inCode hy
  concluding _ _ _ hy hf concludes := h.concluding_step hs serving step hy hf concludes

theorem of_untouched (h : w.Untouched) : w.Sourced [] := by
  have none (s : Nat) : w.workers[s]? = none := by rw [h.workers]; rfl
  constructor
  · intro s held
    rw [h.connection] at held
    cases held
  · intro _ _
    obtain ⟨n, timeout, transport, reaction, kept, rfl⟩ := h
    rfl
  · intro stopping
    rw [h.connection] at stopping
    cases stopping
  · intro _ t here
    rw [h.frames] at here
    cases here
  · exact fun _ _ => rfl
  · intro s x hx
    rw [none] at hx
    cases hx
  · intro t s j x here
    rw [h.frames] at here
    cases here
  · intro s x f hx
    rw [none] at hx
    cases hx

/-- Wherever a run leads, the fee address is what the worker of the session has brought last. -/
theorem of_trace {allowed : World → Move → Prop} {w₀ : World} (first : w₀.Untouched)
    (run : Trace allowed w₀ past w) : w.Sourced past := by
  suffices all : w.Sound ∧ w.Serving ∧ w.Peopled ∧ w.Sourced past from all.2.2.2
  induction run with
  | nil =>
    exact ⟨.of_untouched first, .of_untouched first, .of_untouched first, of_untouched first⟩
  | step m past may now ih =>
    obtain ⟨sound, serving, peopled, sourced⟩ := ih
    have step := worldStep_of_step now
    exact ⟨sound.step step, serving.step step, peopled.step step,
      sourced.step sound serving peopled step⟩

end Sourced

end Sourcing

end World

end RemoteNode.Session
