import RemoteNode.Proofs.Session.Tracking
import RemoteNode.Proofs.Session.Waiting

/-! What a worker tells observers. A thread announces what its code says, and a worker is about to
announce only what its own course has brought up. Once all that is known is true of the node, that
is the connectivity alone, and nothing from one refresh that succeeds to the next. -/

namespace RemoteNode.Session

open Observer (Notice)

/-- What a worker announces. -/
def Entry.notice? (s : Nat) : Entry → Option Notice
  | announced (.worker r) n => if r = s then some n else none
  | _ => none

/-- What a refresh of a worker ends with in a step. -/
def refreshEnd? (s : Nat) (e : World × Move) : Option (Except Failure Unit) :=
  match e.2 with
  | .run (.worker r) =>
    match e.1.frames (.worker r) with
    | .refreshed result :: _ => if r = s then some result else none
    | _ => none
  | _ => none

section Notices
variable {w u v : World} {m : Move} {t : Thread} {s : Nat} {x y x' : Worker} {f : Frame}
  {fs rest : List Frame} {n : Notice} {c : Connection} {chain : ChainView}

theorem refreshEnd?_of_frames {r : Except Failure Unit}
    (code : w.frames (.worker s) = .refreshed r :: rest) :
    refreshEnd? s (w, .run (.worker s)) = some r := by
  simp [refreshEnd?, code]

/-- A worker whose refresh goes on does not run what one ends with. -/
theorem ne_refreshed (hx : w.workers[s]? = some x) (hf : x.frames = f :: rest)
    (goesOn : refreshEnd? s (w, .run (.worker s)) = none) (r : Except Failure Unit) :
    f ≠ .refreshed r := by
  rintro rfl
  rw [refreshEnd?_of_frames (by rw [frames_worker hx, hf])] at goesOn
  cases goesOn

theorem frames_of_refreshEnd? {e : World × Move} {r : Except Failure Unit}
    (ends : refreshEnd? s e = some r) :
    e.2 = .run (.worker s) ∧ ∃ rest, e.1.frames (.worker s) = .refreshed r :: rest := by
  obtain ⟨w, m⟩ := e
  simp only [refreshEnd?] at ends
  split at ends
  · split at ends
    · rename_i q result rest code
      split at ends
      · rename_i same
        subst same
        cases ends
        exact ⟨rfl, rest, code⟩
      · cases ends
    · cases ends
  · cases ends

theorem FrameStep.notices (step : FrameStep w t f u fs) : ∃ es, u.log = es ++ w.log ∧
    ∀ e ∈ es, ∀ n, e.notice? s = some n → t = .worker s ∧ f = .notify n := by
  cases step with
  | returning src a r => exact ⟨[.returned src a r], rfl, by simp [Entry.notice?]⟩
  | init src label after | operate src label o after =>
    exact ⟨[.called (w.draw t label after).1], rfl, by simp [Entry.notice?]⟩
  | complete cb o => exact ⟨[.completed cb o (t = cb.thread)], rfl, by simp [Entry.notice?]⟩
  | notifyNobody n | notify n =>
    refine ⟨[.announced t n], by simp [World.record, World.setRegistry_eq, World.setDelivery_eq],
      fun e he n' told => ?_⟩
    rw [List.mem_singleton] at he
    subst he
    cases t with
    | caller k => cases told
    | worker r =>
      simp only [Entry.notice?, Option.ite_none_right_eq_some, Option.some.injEq] at told
      obtain ⟨rfl, rfl⟩ := told
      exact ⟨rfl, rfl⟩
  | deliver n o => exact ⟨[.notified o n], rfl, by simp [Entry.notice?]⟩
  | leave r => exact ⟨[.ended r], rfl, by simp [Entry.notice?]⟩
  | register | unregister | unregisterAwait | delivered =>
    exact ⟨[], by simp [World.setRegistry_eq, World.setDelivery_eq], by simp⟩
  | _ => exact ⟨[], rfl, by simp⟩

theorem WorldStep.notices (step : WorldStep w m v) : ∃ es, v.log = es ++ w.log ∧
    ∀ e ∈ es, ∀ n, e.notice? s = some n → .notify n ∈ w.frames (.worker s) := by
  cases m with
  | run t =>
    obtain ⟨f, rest, fs, u, code, ran, rfl, -⟩ := step.ran
    obtain ⟨es, he, told⟩ := ran.notices (s := s)
    refine ⟨es, by rw [log_setFrames, he], fun e h n notice => ?_⟩
    obtain ⟨rfl, rfl⟩ := told e h n notice
    rw [code]
    exact List.mem_cons_self ..
  | call | release | reply => cases step; exact ⟨[], rfl, by simp⟩
  | turn r k =>
    cases step with
    | turn r k x y es hx idle stays turn =>
      refine ⟨es, rfl, fun e h n notice => ?_⟩
      cases turn with
      | send | answered =>
        rw [List.mem_singleton] at h
        subst h
        cases notice
      | _ => cases h

/-- What a worker is about to announce, it was about to announce before, or its own course has
brought it up. -/
theorem notify_source (step : WorldStep w m v) (hx : w.workers[s]? = some x)
    (h : .notify n ∈ v.frames (.worker s)) : .notify n ∈ x.frames ∨
      ∃ f rest x' c chain fs, m = .run (.worker s) ∧ x.frames = f :: rest ∧
        OwnStep w x f x' c chain fs ∧ .notify n ∈ fs := by
  obtain old | ⟨f, rest, u, fs, here, code, ran, pushed⟩ :=
    (step.threadStep (.worker s)).source rfl h
  · exact .inl (frames_worker hx ▸ old)
  · rw [frames_worker hx] at code
    cases ran with
    | own f r z x' c chain fs isHere hz own =>
      cases isHere
      rw [hx] at hz
      cases hz
      exact .inr ⟨f, rest, x', c, chain, fs, here, code, own, pushed⟩
    | _ => simp at pushed

end Notices

/-- The worker is about to announce nothing, and what it remembers of the connectivity is true. -/
structure Worker.IsCalm (n : Node) (x : Worker) : Prop where
  connected : x.memory.connected = n.isConnected
  silent : ∀ a, .notify a ∉ x.frames

/-- No refresh of the worker succeeds any more before one has failed. -/
def Worker.IsDoomed (x : Worker) : Prop :=
  (∃ e, .refreshed (.error e) ∈ x.frames) ∨ x.refreshing = .over ∨ .leave ∈ x.frames

/-- No refresh of the worker ends any more, unless it fails so. -/
def Worker.FailsOnly (P : Failure → Prop) (x : Worker) : Prop :=
  (∃ e, P e ∧ .refreshed (.error e) ∈ x.frames) ∨ x.refreshing = .over ∨ .leave ∈ x.frames

/-- A worker that ends a refresh because it was told to stop only fails so. -/
theorem Worker.failsOnly_cancelled {P : Failure → Prop} (x : Worker) (stops : P .interrupted)
    (g : Stage) : (x.cancelled (.refresh g)).FailsOnly P := by
  rw [Worker.cancelled]
  split
  · exact .inl ⟨.interrupted, stops, List.mem_cons_self ..⟩
  · exact .inr (.inl rfl)

theorem isDoomed_iff {x : Worker} : x.IsDoomed ↔ x.FailsOnly fun _ => True := by
  simp [Worker.IsDoomed, Worker.FailsOnly]

/-- The worker is about to announce nothing but its connectivity. -/
def Worker.TellsConnectivity (x : Worker) : Prop :=
  ∀ a, .notify a ∈ x.frames → ∃ b, a = .connected b

section Steady
variable {n : Node} {q : Poller} {hq : n.Steady q} {limit : Exchange.Timeout} {w v : World}
  {m : Move} {s : Nat} {x y x' : Worker} {f : Frame} {fs rest : List Frame} {a : Notice}
  {c : Connection} {chain : ChainView}

/-- Once all that is known is true of the node, a refresh brings up at most another connectivity. -/
theorem connected_of_steady (tracks : (Pass.steady hq).Tracks limit (w.poller x) x)
    (h : x.OnCourse) (hf : x.frames = f :: rest) (step : OwnStep w x f x' c chain fs)
    (pushed : .notify a ∈ fs) : ∃ b, a = .connected b ∧ f = .setConnected b ∧
      x.memory.connected ≠ b := by
  have course := h.course
  have code := tracks.code
  have kept : w.chain = q.chain := tracks.base.chain
  rw [hf, ownCode_own step.isOwn] at course code
  generalize x.phase = ph, x.refreshing = r, x.refreshes = k, ownCode rest = o at course code
  cases step with
  | setConnected b change =>
    simp only [List.mem_singleton, Frame.notify.injEq] at pushed
    exact ⟨b, pushed, rfl, change⟩
  | notePeers i =>
    cases course with
    | refresh _ _ _ refresh =>
      cases code refresh with
      | notePeers _ honest =>
        have same := hq.informed.peers.trans honest.2.2.1.symm
        rw [kept, ChainView.withPeers_eq_self same] at pushed
        simp at pushed
  | noteKnown i =>
    cases course with
    | refresh _ _ _ refresh =>
      cases code refresh with
      | noteKnown _ honest =>
        rw [kept, honest.2.1, ChainView.raiseKnown_of_le hq.informed.known] at pushed
        simp at pushed
  | noteHeader b =>
    cases course with
    | refresh _ _ _ refresh =>
      cases code refresh with
      | noteHeader _ heading =>
        rw [kept, ChainView.withHeader_eq_self heading.2] at pushed
        simp at pushed
  | notePool b ids u actual change =>
    cases course with
    | refresh _ _ _ refresh =>
      cases code refresh with
      | notePool _ _ _ honest =>
        have tail : w.chain.header.hash = n.header.hash := kept ▸ hq.placed.tail
        have none := Node.change_of_pool honest tail (tracks.base.known ▸ hq.pool)
        rw [show x.memory.known.change (b.added.map Chain.Transaction.id) b.deleted = _ from none]
          at change
        cases change
        simp [PoolUpdate.isEmpty] at pushed
  | _ => simp at pushed

/-- A refresh that has ended well is all that a worker has to run. -/
theorem rest_of_refreshed {r : Except Failure Unit} (h : x.OnCourse)
    (hf : x.frames = .refreshed r :: rest) : rest = [] ∧ x.refreshing = .busy := by
  have course := h.course
  have bottom := h.bottom
  rw [hf] at bottom
  rw [hf, ownCode_own rfl] at course
  have alone : ownCode rest = [] ∧ x.refreshing = .busy := by
    generalize x.phase = ph, x.refreshing = q, x.refreshes = k, ownCode rest = o at course
    cases course with
    | refresh _ _ _ code => cases code; exact ⟨rfl, rfl⟩
  refine ⟨?_, alone.2⟩
  by_contra more
  obtain ⟨g, last⟩ : ∃ g, rest.getLast? = some g := by
    cases hl : rest.getLast? with
    | none => exact absurd (List.getLast?_eq_none_iff.mp hl) more
    | some g => exact ⟨g, rfl⟩
  have atEnd : g ∈ (Frame.refreshed r :: rest).getLast? := by
    rw [List.getLast?_cons, last]
    rfl
  cases own : g.isOwn with
  | false =>
    have none := bottom g atEnd own
    rw [ownCode_own rfl] at none
    cases none
  | true =>
    have inCode := (mem_ownCode own).mpr (List.mem_of_getLast? last)
    rw [alone.1] at inCode
    cases inCode

/-- A worker that is about to report a failure leaves. -/
theorem failsOnly_of_markFailed {P : Failure → Prop} (h : x.OnCourse)
    (hf : x.frames = .markFailed :: rest) : x.FailsOnly P := by
  have course := h.course
  rw [hf, ownCode_own rfl] at course
  refine .inr (.inr (hf ▸ List.mem_cons_of_mem _ ((mem_ownCode rfl).mp ?_)))
  generalize x.phase = ph, x.refreshing = q, x.refreshes = k, ownCode rest = o at course
  cases course with
  | failed => exact List.mem_cons_self ..
  | refresh _ _ _ code => cases code

theorem not_failsOnly_of_refreshed {P : Failure → Prop} {r : Except Failure Unit} (h : x.OnCourse)
    (hf : x.frames = .refreshed r :: rest) (other : ∀ e, r = .error e → ¬P e) : ¬x.FailsOnly P := by
  obtain ⟨rfl, busy⟩ := rest_of_refreshed h hf
  rintro (⟨e, so, lost⟩ | isOver | leaves)
  · rw [hf, List.mem_singleton] at lost
    cases lost
    exact other e rfl so
  · rw [busy] at isOver
    cases isOver
  · rw [hf] at leaves
    simp at leaves

theorem not_doomed_of_refreshed (h : x.OnCourse) (hf : x.frames = .refreshed (.ok ()) :: rest) :
    ¬x.IsDoomed := by
  rw [isDoomed_iff]
  exact not_failsOnly_of_refreshed h hf nofun

/-- A worker that only fails so any more goes on like this until a refresh of it has ended. -/
theorem failsOnly_step {P : Failure → Prop} (stops : P .interrupted) (h : x.OnCourse)
    (hx : w.workers[s]? = some x) (step : WorkerStep w m s x y)
    (goesOn : refreshEnd? s (w, m) = none) (fails : x.FailsOnly P) : y.FailsOnly P := by
  have below {f : Frame} {rest : List Frame} {z : Worker} (hf : x.frames = f :: rest)
      (notLost : ∀ r, f ≠ .refreshed r) (stays : f ≠ .leave) (left : ∀ g ∈ rest, g ∈ z.frames)
      (still : x.refreshing = .over → z.refreshing = .over) : z.FailsOnly P := by
    rcases fails with ⟨e, so, lost⟩ | isOver | leaves
    · rw [hf] at lost
      rcases List.mem_cons.mp lost with same | lost
      · exact absurd same.symm (notLost _)
      · exact .inl ⟨e, so, left _ lost⟩
    · exact .inr (.inl (still isOver))
    · rw [hf] at leaves
      rcases List.mem_cons.mp leaves with same | leaves
      · exact absurd same.symm stays
      · exact .inr (.inr (left _ leaves))
  cases step with
  | others y away touched =>
    rwa [Worker.FailsOnly, touched.frames, touched.refreshing]
  | foreign f rest fs u y here hf ran notOwn touched =>
    refine below hf ?_ ?_ (fun g hg => List.mem_append_right _ hg) fun isOver => ?_
    · rintro r rfl
      cases notOwn
    · rintro rfl
      cases notOwn
    · exact touched.refreshing.trans isOver
  | own f rest fs x' c chain here hf own =>
    subst here
    have notLost := ne_refreshed hx hf goesOn
    refine below hf notLost ?_ (fun g hg => List.mem_append_right _ hg) fun isOver => ?_
    · rintro rfl
      cases own
    · cases own with
      | refreshed r => exact absurd rfl (notLost r)
      | goLive =>
        have course := h.course
        rw [hf, ownCode_own rfl, isOver] at course
        generalize x.phase = ph, x.refreshes = k, ownCode rest = o at course
        cases course
      | _ => exact isOver
  | markFailed rest here hf => exact below hf (by simp) (by simp) (fun g hg => hg) id
  | leave => exact .inr (.inl rfl)
  | reply => exact fails
  | turn k y es here idle stays turn =>
    rcases fails with ⟨e, so, lost⟩ | isOver | leaves
    · rw [idle] at lost
      cases lost
    · have cancelled {z : Worker} (isOver : z.refreshing = .over) (task : Task) :
          (z.cancelled task).FailsOnly P := by
        cases task with
        | job j p => exact .inr (.inl isOver)
        | refresh g => exact z.failsOnly_cancelled stops g
      cases turn with
      | pollStopped task r rest => exact cancelled (z := { x with runnable := rest }) isOver task
      | interrupt i task =>
        exact cancelled (z := { x with waiting := x.waiting.eraseIdx i }) isOver task
      | wakeStopped asleep | wake asleep =>
        rw [isOver] at asleep
        cases asleep
      | answered task r rest =>
        obtain ⟨rs, fs, same⟩ := ({ x with runnable := rest } : Worker).answered_eq w.timeout task r
        rw [same]
        exact .inr (.inl isOver)
      | beginJob j p rest =>
        obtain ⟨r, same⟩ | same := ({ x with runnable := rest } : Worker).advanced_cases j p <;>
          rw [same] <;> exact .inr (.inl isOver)
      | _ => exact .inr (.inl isOver)
    · rw [idle] at leaves
      cases leaves

/-- A doomed worker stays doomed until a refresh of it has ended. -/
theorem doomed_step (h : x.OnCourse) (hx : w.workers[s]? = some x)
    (step : WorkerStep w m s x y) (goesOn : refreshEnd? s (w, m) = none) (doomed : x.IsDoomed) :
    y.IsDoomed := by
  rw [isDoomed_iff] at doomed ⊢
  exact failsOnly_step trivial h hx step goesOn doomed

/-- Once all that is known is true of the node, a calm worker stays calm, or it is doomed. -/
theorem calm_step (tracks : (Pass.steady hq).Tracks limit (w.poller x) x) (h : x.OnCourse)
    (step : WorkerStep w m s x y) (calm : x.IsCalm n) : y.IsCalm n ∨ y.IsDoomed := by
  cases step with
  | others y away touched =>
    refine .inl ⟨by rw [touched.memory, calm.connected], ?_⟩
    rw [touched.frames]
    exact calm.silent
  | foreign f rest fs u y here hf ran notOwn touched =>
    refine .inl ⟨(congrArg Memory.connected touched.memory).trans calm.connected, fun a told => ?_⟩
    have silent := calm.silent
    rw [hf] at silent
    rcases List.mem_append.mp told with pushed | left
    · refine (ran.silent notOwn ?_ _ pushed).2 a rfl
      rintro b rfl
      exact silent b (List.mem_cons_self ..)
    · exact silent a (List.mem_cons_of_mem _ left)
  | own f rest fs x' c chain here hf own =>
    have silent := calm.silent
    rw [hf] at silent
    by_cases told : ∃ b, f = .setConnected b ∧ x.memory.connected ≠ b
    · obtain ⟨b, rfl, other⟩ := told
      right
      -- what is not the connectivity of the node is told where a refresh is lost, or at the end
      have course := h.course
      have code := tracks.code
      rw [hf, ownCode_own rfl] at course code
      have inRest {g : Frame} (own : g.isOwn = true) (left : g ∈ ownCode rest) :
          g ∈ fs ++ rest := List.mem_append_right _ ((mem_ownCode own).mp left)
      have still : x'.refreshing = x.refreshing := by cases own <;> rfl
      generalize x.phase = ph, x.refreshes = k, hr : x.refreshing = r, ho : ownCode rest = o
        at course code
      cases course with
      | refresh _ _ _ refresh =>
        cases code refresh with
        | setConnected => exact absurd calm.connected other
        | lost e => exact .inl ⟨e, inRest rfl (by rw [ho]; exact List.mem_cons_self ..)⟩
      | lost | refused => exact .inr (.inr (inRest rfl (by rw [ho]; simp)))
      | hush => exact .inr (.inl (still.trans hr))
    · left
      refine ⟨?_, fun a pushed => ?_⟩
      · change x'.memory.connected = n.isConnected
        rw [← calm.connected]
        cases own with
        | setConnected b change => exact absurd ⟨b, rfl, change⟩ told
        | _ => rfl
      · rcases List.mem_append.mp pushed with pushed | left
        · obtain ⟨b, -, rfl, other⟩ := connected_of_steady tracks h hf own pushed
          exact told ⟨b, rfl, other⟩
        · exact silent a (List.mem_cons_of_mem _ left)
  | markFailed rest here hf | leave rest here hf =>
    have silent := calm.silent
    rw [hf] at silent
    exact .inl ⟨calm.connected, fun a left => silent a (List.mem_cons_of_mem _ left)⟩
  | reply => exact .inl ⟨calm.connected, calm.silent⟩
  | turn k y es here idle stays turn =>
    refine .inl ⟨by rw [turn.same.2.2.1, calm.connected], fun a told => ?_⟩
    have none := (turn.code idle).layered.2 _ told
    cases none

/-- Once all that is known is true of the node, a worker announces nothing but its connectivity. -/
theorem tellsConnectivity_step (tracks : (Pass.steady hq).Tracks limit (w.poller x) x)
    (h : x.OnCourse) (hx : w.workers[s]? = some x) (hy : v.workers[s]? = some y)
    (step : WorldStep w m v) (tells : x.TellsConnectivity) : y.TellsConnectivity := by
  intro a told
  rw [← frames_worker hy] at told
  obtain old | ⟨f, rest, x', c, chain, fs, -, hf, own, pushed⟩ := notify_source step hx told
  · exact tells a old
  · obtain ⟨b, rfl, -⟩ := connected_of_steady tracks h hf own pushed
    exact ⟨b, rfl⟩

end Steady

end RemoteNode.Session
