import RemoteNode.Proofs.Session.Stack

/-! What a worker stands for: the state of the connection as far as it is up to that worker. It
changes in few places, each of them one frame of the worker's own course. -/

namespace RemoteNode.Session

/-- The state of the connection that a phase and the code left of a course stand for. -/
def standsFor : Phase → List Frame → State
  | .opening, [.goLive] => .initialized
  | .opening, [.leave] => .notInitialized
  | .opening, [.setConnected _, .leave] => .notInitialized
  | .opening, _ => .initializing
  | .live, _ => .initialized
  | .closed, _ => .initialized
  | .ended, _ => .notInitialized

/-- The frame writes to what is known of the chain. -/
def Frame.writes : Frame → Bool
  | noteFee _ | notePeers _ | noteKnown _ | noteHeight _ | noteHeader _ => true
  | _ => false

namespace Worker

/-- The state of the connection that a worker stands for. -/
def stands (x : Worker) : State := standsFor x.phase (ownCode x.frames)

/-- The worker has still to write to what is known of the chain. -/
def writes (x : Worker) : Bool := (ownCode x.frames).any Frame.writes

/-- The worker may still change what is shared: it has not decided whether the connection comes
about, it serves, or it is in the midst of a refresh. -/
def IsActive (x : Worker) : Prop :=
  x.stands = .initializing ∨ x.stands = .initialized ∧ (x.stopped = false ∨ x.writes = true)

/-- The worker has decided whether the connection comes about and is not in the midst of a
refresh. -/
def IsSettled (x : Worker) : Prop := x.stands ≠ .initializing ∧ x.writes = false

/-- The callback of the worker waits for the first refresh to end. -/
def owes (x : Worker) : Bool := x.phase = .opening && !x.frames.any Frame.decides

end Worker

section Standing
variable {w : World} {m : Move} {s : Nat} {x x' y : Worker} {f : Frame} {fs o rest : List Frame}
  {c : Connection} {chain : ChainView} {p : Phase} {r : Refreshing} {n : Nat}

theorem standsFor_refresh (code : RefreshCode fs) : standsFor p fs = standsFor p [] := by
  cases code <;> cases p <;> rfl

theorem standsFor_live (h : p = .live ∨ p = .closed) : standsFor p fs = .initialized := by
  rcases h with rfl | rfl <;> rfl

/-- How a step changes what a worker stands for. -/
inductive StandStep (w : World) (m : Move) (s : Nat) (x y : Worker) : Prop
  | keep (same : y.stands = x.stands)
    (stays : ∀ f rest, m = .run (.worker s) → x.frames = f :: rest →
      f ≠ .markInitialized ∧ f ≠ .markFailed) : StandStep w m s x y
  | mark (rest : List Frame) (here : m = .run (.worker s))
    (code : x.frames = .markInitialized :: rest) (before : x.stands = .initializing)
    (calm : w.connection.stopping = false) (state : w.connection.state = .initializing)
    (after : y.stands = .initialized) : StandStep w m s x y
  | refuse (rest : List Frame) (here : m = .run (.worker s))
    (code : x.frames = .markInitialized :: rest) (before : x.stands = .initializing)
    (busy : ¬(w.connection.stopping = false ∧ w.connection.state = .initializing))
    (after : y.stands = .notInitialized) : StandStep w m s x y
  | fail (rest : List Frame) (here : m = .run (.worker s))
    (code : x.frames = .markFailed :: rest) (before : x.stands = .initializing)
    (after : y.stands = .notInitialized) : StandStep w m s x y
  | left (rest : List Frame) (here : m = .run (.worker s)) (code : x.frames = .leave :: rest)
    (stopped : x.stopped = true) (after : y.stands = .notInitialized) : StandStep w m s x y

/-- What a frame of its own course does to what a worker stands for. -/
theorem standStep_own (h : x.OnCourse) (hf : x.frames = f :: rest)
    (step : OwnStep w x f x' c chain fs) :
    StandStep w (.run (.worker s)) s x { x' with frames := fs ++ rest } := by
  have course := h.course
  have code : ownCode x.frames = f :: ownCode rest := by rw [hf, ownCode_own step.isOwn]
  rw [code] at course
  have before : x.stands = standsFor x.phase (f :: ownCode rest) := by rw [Worker.stands, code]
  have after : ({ x' with frames := fs ++ rest } : Worker).stands =
      standsFor x'.phase (ownCode fs ++ ownCode rest) := by rw [Worker.stands, ownCode_append]
  have keep (stays : f ≠ .markInitialized ∧ f ≠ .markFailed)
      (same : standsFor x'.phase (ownCode fs ++ ownCode rest) =
        standsFor x.phase (f :: ownCode rest)) :
      StandStep w (.run (.worker s)) s x { x' with frames := fs ++ rest } := by
    refine .keep (by rw [after, same, before]) fun g gs _ hg => ?_
    rw [hf] at hg
    cases hg
    exact stays
  cases step with
  | markInitialized calm state =>
    generalize x.phase = p, x.refreshing = r, x.refreshes = n, ownCode rest = o at *
    cases course with
    | mark => exact .mark rest rfl hf before calm state after
    | refresh p fs stays code => cases code
  | markRefused busy =>
    generalize x.phase = p, x.refreshing = r, x.refreshes = n, ownCode rest = o at *
    cases course with
    | mark => exact .refuse rest rfl hf before busy after
    | refresh p fs stays code => cases code
  | goLive =>
    apply keep (by simp)
    generalize x.phase = p, x.refreshing = r, x.refreshes = n, ownCode rest = o at course ⊢
    cases course with
    | goLive => rfl
    | refresh p fs stays code => cases code
  | opened opening | lost e opening =>
    apply keep (by simp)
    rw [opening] at course ⊢
    generalize x.refreshing = r, x.refreshes = n, ownCode rest = o at course ⊢
    cases course with
    | refresh p fs stays code =>
      cases code
      rfl
  | refreshed r opened =>
    apply keep (by simp)
    generalize hp : x.phase = p at opened course ⊢
    generalize x.refreshing = q, x.refreshes = n, ownCode rest = o at course ⊢
    cases course with
    | refresh p fs stays code =>
      cases code
      cases p <;> rfl
  | notePeers | noteKnown | noteHeader | notePool =>
    apply keep (by simp)
    generalize x.phase = p, x.refreshing = r, x.refreshes = n, ownCode rest = o at course ⊢
    cases course with
    | refresh p fs stays code =>
      cases code
      split <;> cases p <;> rfl
  | stayConnected | setConnected =>
    apply keep (by simp)
    generalize x.phase = p, x.refreshing = r, x.refreshes = n, ownCode rest = o at course ⊢
    cases course with
    | refresh p fs stays code => cases code <;> cases p <;> rfl
    | lost | refused => rfl
    | hush p h => rw [standsFor_live h, standsFor_live h]
  | connect | noTransport =>
    apply keep (by simp)
    generalize x.phase = p, x.refreshing = r, x.refreshes = n, ownCode rest = o at course ⊢
    cases course with
    | connect => rfl
    | refresh p fs stays code => cases code
  | _ =>
    apply keep (by simp)
    generalize x.phase = p, x.refreshing = r, x.refreshes = n, ownCode rest = o at course ⊢
    cases course with
    | refresh p fs stays code =>
      cases code
      cases p <;> rfl

/-- How a step changes what a worker stands for. -/
theorem WorkerStep.standStep (h : x.OnCourse) (step : WorkerStep w m s x y) :
    StandStep w m s x y := by
  cases step with
  | others y away touched =>
    refine .keep ?_ fun f rest here _ => absurd here away
    rw [Worker.stands, Worker.stands, touched.phase, touched.frames]
  | foreign f rest fs u y here hf step notOwn touched =>
    refine .keep ?_ fun g gs _ hg => ?_
    · rw [Worker.stands, Worker.stands, step.ownCode_eq notOwn, hf, touched.phase]
    · rw [hf] at hg
      cases hg
      constructor <;> rintro rfl <;> cases notOwn
  | own f rest fs x' c chain here hf step => exact here ▸ standStep_own h hf step
  | markFailed rest here hf =>
    have course := h.course
    have code : ownCode x.frames = .markFailed :: ownCode rest := by rw [hf, ownCode_own rfl]
    rw [code] at course
    have before : x.stands = standsFor x.phase (.markFailed :: ownCode rest) := by
      rw [Worker.stands, code]
    have after : ({ x with frames := rest } : Worker).stands = standsFor x.phase (ownCode rest) :=
      rfl
    generalize x.phase = p, x.refreshing = r, x.refreshes = n, ownCode rest = o at *
    cases course with
    | refresh p fs stays code => cases code
    | failed => exact .fail rest here hf before after
  | leave rest here hf =>
    have course := h.course
    have code : ownCode x.frames = .leave :: ownCode rest := by rw [hf, ownCode_own rfl]
    rw [code] at course
    have before : x.stands = standsFor x.phase (.leave :: ownCode rest) := by
      rw [Worker.stands, code]
    have stopped := h.closed
    generalize x.phase = p, x.refreshing = r, x.refreshes = n, ownCode rest = o at *
    cases course with
    | refresh p fs stays code => cases code
    | leave =>
      refine .keep before.symm fun g gs _ hg => ?_
      rw [hf] at hg
      cases hg
      simp
    | finish => exact .left rest here hf (stopped rfl) rfl
  | reply i r task here => exact .keep rfl fun f rest ran => by simp [here] at ran
  | turn k _ es here idle stays step =>
    have stays' : ∀ f rest, m = .run (.worker s) → x.frames = f :: rest →
        f ≠ .markInitialized ∧ f ≠ .markFailed := fun f rest ran => by simp [here] at ran
    obtain ⟨-, -, -, phase | ⟨live, closed, -⟩⟩ := step.same
    · refine .keep ?_ stays'
      have course := h.course
      rw [idle] at course
      have next := Course.turn step idle stays course
      have code := step.code idle
      rw [Worker.stands, Worker.stands, phase, idle, ownCode_nil]
      rw [phase] at next
      generalize y.refreshing = r, y.refreshes = n at next
      cases hp : x.phase with
      | live | closed => rfl
      | ended => exact absurd hp stays
      | opening =>
        rw [hp] at code next
        generalize y.frames = gs at code next ⊢
        cases code with
        | nothing | conclude | reject => rfl
        | refresh fs code own => rw [own, standsFor_refresh code]
        | leave closed => cases closed
        | hush =>
          exfalso
          rw [ownCode_own rfl] at next
          cases next with
          | refresh p fs stays code => cases code
          | hush p h => simp at h
    · refine .keep ?_ stays'
      rw [Worker.stands, Worker.stands, live, closed]
      rfl

/-- Only an answer that a worker takes before it is told to stop makes it write to the chain. -/
theorem WorkerStep.writes (step : WorkerStep w m s x y) (hw : y.writes = true) :
    x.writes = true ∨ x.stopped = false := by
  have rest_writes {f : Frame} {rest : List Frame} (hf : x.frames = f :: rest)
      (h : (ownCode rest).any Frame.writes = true) : x.writes = true := by
    rw [Worker.writes, hf]
    cases own : f.isOwn with
    | true => simp [ownCode_own own, h]
    | false => rwa [ownCode_foreign own]
  have cancelled (z : Worker) (task : Task) : (z.cancelled task).writes = false := by
    cases task with
    | job => rfl
    | refresh g =>
      rw [Worker.cancelled]
      split <;> rfl
  cases step with
  | others y away touched =>
    left
    rwa [Worker.writes, touched.frames] at hw
  | foreign f rest fs u y here hf step notOwn touched =>
    left
    rwa [Worker.writes, step.ownCode_eq notOwn, ← hf] at hw
  | own f rest fs x' c chain here hf step =>
    left
    have none : (ownCode fs).any Frame.writes = false := by
      cases step with
      | notePeers | noteKnown | noteHeader | notePool => split <;> rfl
      | _ => rfl
    rw [Worker.writes, ownCode_append, List.any_append, none, Bool.false_or] at hw
    exact rest_writes hf hw
  | markFailed rest here hf => exact .inl (rest_writes hf hw)
  | leave rest here hf => exact .inl (rest_writes hf hw)
  | reply => exact .inl hw
  | turn k _ es here idle stays step =>
    have nothing : x.writes = false := by rw [Worker.writes, idle]; rfl
    cases step with
    | answered task r rest going first => exact .inr going
    | send task rest going | beginJob j p rest going | beginRefresh g rest going
    | wake asleep going => exact .inr going
    | pollStopped task | interrupt i task =>
      rw [cancelled] at hw
      cases hw
    | wakeStopped | reject | finish => cases hw
    | take | close => exact .inl hw

theorem WorkerStep.stopped (step : WorkerStep w m s x y) (h : x.stopped = true) :
    y.stopped = true := by
  cases step with
  | others y away touched => exact touched.stopped h
  | foreign f rest fs u y here hf step notOwn touched => exact touched.stopped h
  | own f rest fs x' c chain here hf step => cases step <;> exact h
  | markFailed | leave | reply => exact h
  | turn k _ es here idle stays step => exact step.same.1 ▸ h

/-- A worker keeps its callback. -/
theorem WorkerStep.callback (step : WorkerStep w m s x y) : y.callback = x.callback := by
  cases step with
  | others y away touched => exact touched.callback
  | foreign f rest fs u y here hf step notOwn touched => exact touched.callback
  | own f rest fs x' c chain here hf step => cases step <;> rfl
  | markFailed | leave | reply => rfl
  | turn k _ es here idle stays step => exact step.same.2.1

theorem WorkerStep.course_eq (step : WorkerStep w m s x y) (code : x.frames = f :: rest)
    (foreign : f.isOwn = false) :
    y.phase = x.phase ∧ ownCode y.frames = ownCode x.frames := by
  cases step with
  | others y away touched => exact ⟨touched.phase, by rw [touched.frames]⟩
  | foreign g rest' fs u y here hf step notOwn touched =>
    refine ⟨touched.phase, ?_⟩
    rw [step.ownCode_eq notOwn, hf]
  | own g rest' fs x' c chain here hf step =>
    rw [hf] at code
    cases code
    rw [step.isOwn] at foreign
    cases foreign
  | markFailed rest' here hf | leave rest' here hf =>
    rw [hf] at code
    cases code
    cases foreign
  | reply => exact ⟨rfl, rfl⟩
  | turn k _ es here idle =>
    rw [idle] at code
    cases code

/-- A worker that may change nothing any more never does. -/
theorem WorkerStep.isActive (h : x.OnCourse) (step : WorkerStep w m s x y) (hy : y.IsActive) :
    x.IsActive := by
  cases step.standStep h with
  | keep same stays =>
    rw [Worker.IsActive, same] at hy
    obtain opening | ⟨initialized, going⟩ := hy
    · exact .inl opening
    · refine .inr ⟨initialized, ?_⟩
      obtain going | writes := going
      · left
        by_contra stopped
        rw [step.stopped (by simpa using stopped)] at going
        cases going
      · exact (step.writes writes).symm
  | mark rest here code before => exact .inl before
  | refuse rest here code before busy after | fail rest here code before after
  | left rest here code before after =>
    simp [Worker.IsActive, after] at hy

end Standing

section Stopping
variable {w u v : World} {m : Move} {t : Thread} {f : Frame} {fs : List Frame} {s : Nat}
  {x y : Worker}

/-- Only a signal and the start of another worker tell a worker to stop. -/
theorem FrameStep.stopped (h : FrameStep w t f u fs) (hx : w.workers[s]? = some x)
    (hy : u.workers[s]? = some y) : y.stopped = x.stopped ∨ f = .signal s ∨
      (∃ cb, f = .start cb) ∧ w.connection.stopping = false ∧
        w.connection.state = .notInitialized := by
  have same (l : List Worker) (hl : l = w.workers) (hy : l[s]? = some y) :
      y.stopped = x.stopped := by
    rw [hl, hx] at hy
    cases hy
    rfl
  cases h with
  | start cb calm state => exact .inr (.inr ⟨⟨cb, rfl⟩, calm, state⟩)
  | signal r =>
    by_cases hr : r = s
    · exact .inr (.inl (by rw [hr]))
    · left
      simp only [List.getElem?_modify, hr, if_false, hx] at hy
      cases hy
      rfl
  | enqueue r j z hz isOpen =>
    left
    simp only [List.getElem?_modify, hx] at hy
    cases hy
    split <;> rfl
  | own f r z x' c chain fs isHere hz step =>
    left
    by_cases hr : r = s
    · subst hr
      rw [hx] at hz
      cases hz
      have hs : r < w.workers.length := (List.getElem?_eq_some_iff.mp hx).1
      simp only [List.getElem?_set_self hs] at hy
      cases hy
      cases step <;> rfl
    · simp only [List.getElem?_set_ne hr, hx] at hy
      cases hy
      rfl
  | leave r z isHere hz =>
    left
    by_cases hr : r = s
    · subst hr
      rw [hx] at hz
      cases hz
      have hs : r < w.workers.length := (List.getElem?_eq_some_iff.mp hx).1
      simp only [List.getElem?_set_self hs] at hy
      cases hy
      rfl
    · simp only [List.getElem?_set_ne hr, hx] at hy
      cases hy
      rfl
  | init | operate | register | unregister | unregisterAwait | notifyNobody | notify | delivered
  | deliver =>
    left
    exact same _ (by simp [World.draw, World.record, World.setRegistry_eq, World.setDelivery_eq]) hy
  | _ => exact .inl (same _ rfl hy)

/-- A step that tells a worker to stop runs a signal or starts another worker. -/
theorem WorldStep.stopped (h : WorldStep w m v) (hx : w.workers[s]? = some x)
    (hy : v.workers[s]? = some y) : y.stopped = x.stopped ∨ ∃ t f rest, m = .run t ∧
      w.frames t = f :: rest ∧ (f = .signal s ∨ (∃ cb, f = .start cb) ∧
        w.connection.stopping = false ∧ w.connection.state = .notInitialized) := by
  cases h with
  | caller n f rest fs u h step =>
    obtain same | told := step.stopped hx hy
    · exact .inl same
    · exact .inr ⟨_, f, rest, rfl, frames_caller h, told⟩
  | worker r z f rest fs u hz hf step =>
    simp only [List.getElem?_modify] at hy
    obtain ⟨z', hz', rfl⟩ := Option.map_eq_some_iff.mp hy
    obtain same | told := step.stopped hx hz'
    · left
      split <;> exact same
    · exact .inr ⟨_, f, rest, rfl, by rw [frames_worker hz, hf], told⟩
  | call | release =>
    left
    change w.workers[s]? = some y at hy
    rw [hx] at hy
    cases hy
    rfl
  | reply r i reply z task hz ht fits =>
    left
    have hs : s < w.workers.length := (List.getElem?_eq_some_iff.mp hx).1
    by_cases hr : r = s
    · subst hr
      rw [hx] at hz
      cases hz
      simp only [World.withWorker, List.getElem?_set_self hs] at hy
      cases hy
      rfl
    · simp only [World.withWorker, List.getElem?_set_ne hr, hx] at hy
      cases hy
      rfl
  | turn r k z x' es hz idle stays step =>
    left
    have hs : s < w.workers.length := (List.getElem?_eq_some_iff.mp hx).1
    by_cases hr : r = s
    · subst hr
      rw [hx] at hz
      cases hz
      simp only [World.withWorker, List.getElem?_set_self hs] at hy
      cases hy
      exact step.same.1
    · simp only [World.withWorker, List.getElem?_set_ne hr, hx] at hy
      cases hy
      rfl

end Stopping

end RemoteNode.Session
