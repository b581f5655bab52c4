import RemoteNode.Proofs.Session.Accepting
import RemoteNode.Proofs.Session.Notices

/-! What a worker has announced, together with what it is about to announce. Only its own course
adds to it, so that whatever its course keeps between what it knows and what it tells holds in every
run. -/

namespace RemoteNode.Session

open Observer (Notice)

/-- What the frame is about to announce. -/
def Frame.notice? : Frame → Option Notice
  | notify n => some n
  | _ => none

/-- What a worker has announced, latest first. -/
def told (s : Nat) (log : List Entry) : List Notice := log.filterMap (Entry.notice? s)

/-- What code is about to announce, in this order. -/
def pending (fs : List Frame) : List Notice := fs.filterMap Frame.notice?

/-- What a worker has announced and is about to announce, latest first. -/
def World.announces (w : World) (s : Nat) : List Notice :=
  (pending (w.frames (.worker s))).reverse ++ told s w.log

section Announcing
variable {w u v : World} {m : Move} {t : Thread} {s : Nat} {x y x' : Worker} {f : Frame}
  {fs gs rest : List Frame} {n : Notice} {c : Connection} {chain : ChainView}

theorem told_append (es log : List Entry) : told s (es ++ log) = told s es ++ told s log :=
  List.filterMap_append

theorem pending_append (fs gs : List Frame) : pending (fs ++ gs) = pending fs ++ pending gs :=
  List.filterMap_append

theorem pending_notify (n : Notice) (fs : List Frame) :
    pending (.notify n :: fs) = n :: pending fs :=
  rfl

theorem mem_pending : n ∈ pending fs ↔ .notify n ∈ fs := by
  rw [pending, List.mem_filterMap]
  constructor
  · rintro ⟨f, hf, told⟩
    cases f <;> first | cases told; exact hf | cases told
  · exact fun h => ⟨_, h, rfl⟩

theorem pending_eq_nil (h : ∀ n, .notify n ∉ fs) : pending fs = [] :=
  List.eq_nil_iff_forall_not_mem.mpr fun n told => h n (mem_pending.mp told)

theorem notice?_of_own (own : f.isOwn = true) : f.notice? = none := by
  cases f <;> first | rfl | cases own

theorem pending_of_quiet (h : ∀ g ∈ fs, g.tells = false) : pending fs = [] :=
  pending_eq_nil fun n told => by
    have := h _ told
    cases this

/-- Running a frame announces what the frame says, and nothing else. -/
theorem FrameStep.told (step : FrameStep w t f u fs) :
    (t = .worker s → f.notice? = none) ∧ told s u.log = told s w.log ∨
      ∃ n, t = .worker s ∧ f = .notify n ∧ told s u.log = n :: told s w.log := by
  have silent {e : Entry} (h : e.notice? s = none) : RemoteNode.Session.told s (e :: w.log) =
      RemoteNode.Session.told s w.log := List.filterMap_cons_none h
  cases step with
  | notifyNobody n | notify n =>
    have log : ∀ z : World, z.log = .announced t n :: w.log →
        (t = .worker s → Frame.notice? (.notify n) = none) ∧
            RemoteNode.Session.told s z.log = RemoteNode.Session.told s w.log ∨
          ∃ n', t = .worker s ∧ Frame.notify n = .notify n' ∧
            RemoteNode.Session.told s z.log = n' :: RemoteNode.Session.told s w.log := by
      intro z hz
      rw [hz]
      by_cases here : t = .worker s
      · subst here
        exact .inr ⟨n, rfl, rfl, List.filterMap_cons_some (by simp [Entry.notice?])⟩
      · refine .inl ⟨fun same => absurd same here, silent ?_⟩
        cases t with
        | caller k => rfl
        | worker r => simpa [Entry.notice?] using here
    exact log _ (by simp [World.record, World.setRegistry_eq, World.setDelivery_eq])
  | returning | init | operate | complete | deliver | leave =>
    exact .inl ⟨fun _ => rfl, silent rfl⟩
  | register | unregister | unregisterAwait | delivered =>
    exact .inl ⟨fun _ => rfl, by simp [World.setRegistry_eq, World.setDelivery_eq]⟩
  | own f r z x' c chain fs isHere hz own => exact .inl ⟨fun _ => notice?_of_own own.isOwn, rfl⟩
  | stray f own => exact .inl ⟨fun _ => notice?_of_own own, rfl⟩
  | _ => exact .inl ⟨fun _ => rfl, rfl⟩

/-- What a turn writes to the log announces nothing. -/
theorem TurnStep.told {limit : Exchange.Timeout} {k : Turn} {es : List Entry} {r : Nat}
    (step : TurnStep limit r x k y es) : told s es = [] := by
  cases step <;> rfl

/-- What a worker announces grows by what a step of its course brings up. -/
theorem announces_own (layers : Layered (w.frames (.worker s))) (hx : w.workers[s]? = some x)
    (step : WorldStep w (.run (.worker s)) v) (hf : x.frames = f :: rest) (own : f.isOwn = true) :
    (∃ x' c fs, OwnStep w x f x' c v.chain fs ∧
        v.workers[s]? = some { x' with frames := fs ++ rest } ∧
          v.announces s = (pending fs).reverse ++ w.announces s) ∨
      (f = .markFailed ∨ f = .leave) ∧ v.chain = w.chain ∧ v.announces s = w.announces s ∧
        ∃ ph q, v.workers[s]? = some { x with phase := ph, refreshing := q, frames := rest } := by
  have code : w.frames (.worker s) = f :: rest := by rw [frames_worker hx, hf]
  rw [code] at layers
  -- below code of its own nothing is told, so what it brings up comes last
  have below : pending rest = [] := pending_of_quiet (layers.1 own)
  have before : pending (f :: rest) = [] :=
    (List.filterMap_cons_none (notice?_of_own own)).trans below
  have silent : told s v.log = told s w.log := by
    obtain ⟨g, gs, fs, u, code', ran, rfl, -⟩ := step.ran
    rw [code] at code'
    obtain ⟨rfl, rfl⟩ := List.cons.inj code'
    rw [log_setFrames]
    obtain ⟨-, same⟩ | ⟨n, -, rfl, -⟩ := ran.told (s := s)
    · exact same
    · cases own
  obtain ⟨x', c, chain, fs, own', same, hy⟩ | ⟨which, same, ph, q, hy⟩ :=
    Pass.ran_own step hx hf own
  · refine .inl ⟨x', c, fs, same ▸ own', hy, ?_⟩
    rw [World.announces, World.announces, frames_worker hy, code, silent, before, pending_append,
      below, List.append_nil]
    rfl
  · refine .inr ⟨which, same, ?_, ph, q, hy⟩
    rw [World.announces, World.announces, frames_worker hy, code, silent, before]
    exact congrArg (·.reverse ++ _) below

/-- Nothing but a step of its course changes what a worker announces or what it remembers. -/
theorem announces_away (hx : w.workers[s]? = some x)
    (step : WorldStep w m v) (hy : v.workers[s]? = some y)
    (away : ∀ f rest, m = .run (.worker s) → x.frames = f :: rest → f.isOwn = false) :
    v.announces s = w.announces s ∧ y.memory = x.memory := by
  have frames := frames_worker hx
  have frames' := frames_worker hy
  obtain ⟨z, hz, worker⟩ := step.workerStep hx
  rw [hy] at hz
  cases hz
  have memory : y.memory = x.memory := by
    cases worker with
    | others _ _ touched | foreign _ _ _ _ _ _ _ _ _ touched => exact touched.memory
    | own f rest fs x' c chain here hf own =>
      have := away f rest here hf
      rw [own.isOwn] at this
      cases this
    | markFailed | leave | reply => rfl
    | turn k y es here idle stays turn => exact turn.same.2.2.1
  refine ⟨?_, memory⟩
  rw [World.announces, World.announces, frames, frames']
  cases m with
  | run t =>
    obtain ⟨f, rest, fs, u, code, ran, rfl, now⟩ := step.ran
    rw [log_setFrames]
    by_cases here : t = .worker s
    · subst here
      rw [frames] at code
      rw [frames'] at now
      have own : f.isOwn = false := away f rest rfl code
      rw [now, code]
      obtain ⟨quiet, same⟩ | ⟨n, -, rfl, same⟩ := ran.told (s := s)
      · have quiet := quiet rfl
        have none : pending fs = [] := pending_eq_nil fun n told => by
          refine (ran.silent own ?_ _ told).2 n rfl
          rintro n rfl
          cases quiet
        rw [same, pending_append, none, List.nil_append]
        exact congrArg (·.reverse ++ _) (List.filterMap_cons_none quiet).symm
      · have none : pending fs = [] := by
          cases ran with
          | notifyNobody | notify => rfl
          | own f r z x' c chain fs isHere hz own => cases own
          | stray f own => cases own
        rw [same, pending_append, none, pending_notify]
        simp
    · have frames : y.frames = x.frames := by
        cases worker with
        | others z away touched => exact touched.frames
        | foreign _ _ _ _ _ same | own _ _ _ _ _ _ same | markFailed _ same | leave _ same =>
          exact absurd (by simpa using same) here
        | reply _ _ _ same | turn _ _ _ same => cases same
      obtain ⟨-, same⟩ | ⟨n, same, -⟩ := ran.told (s := s)
      · rw [frames, same]
      · exact absurd same here
  | call | release | reply =>
    have frames : y.frames = x.frames := by
      cases worker with
      | others z away touched => exact touched.frames
      | reply => rfl
      | foreign _ _ _ _ _ same | own _ _ _ _ _ _ same | markFailed _ same | leave _ same =>
        cases same
      | turn _ _ _ same => cases same
    rw [frames]
    cases step
    rfl
  | turn r k =>
    have none : pending y.frames = pending x.frames := by
      cases worker with
      | others z away touched => rw [touched.frames]
      | turn k z es here idle stays turn =>
        rw [idle, pending_of_quiet (turn.code idle).layered.2]
        rfl
      | foreign _ _ _ _ _ same | own _ _ _ _ _ _ same | markFailed _ same | leave _ same =>
        cases same
      | reply _ _ _ same => cases same
    rw [none]
    cases step with
    | turn r k z z' es hz idle stays turn =>
      change _ ++ told s (es ++ w.log) = _
      rw [told_append, turn.told, List.nil_append]

/-- A frame of a worker's own course runs, or none does. -/
theorem runs_own_or (m : Move) (s : Nat) (x : Worker) :
    (∃ f rest, m = .run (.worker s) ∧ x.frames = f :: rest ∧ f.isOwn = true) ∨
      ∀ f rest, m = .run (.worker s) → x.frames = f :: rest → f.isOwn = false := by
  by_cases own : ∃ f rest, m = .run (.worker s) ∧ x.frames = f :: rest ∧ f.isOwn = true
  · exact .inl own
  · refine .inr fun f rest here hf => ?_
    by_contra isOwn
    exact own ⟨f, rest, here, hf, by simpa using isOwn⟩

/-- The code that is left of a course stays as it is until its first frame runs. -/
theorem WorkerStep.ownCode_eq {o : List Frame} (step : WorkerStep w m s x y)
    (code : ownCode x.frames = f :: o) :
    (ownCode y.frames = f :: o ∧
        ∀ g rest, m = .run (.worker s) → x.frames = g :: rest → g.isOwn = false) ∨
      m = .run (.worker s) ∧ ∃ rest, x.frames = f :: rest ∧ ownCode rest = o := by
  have top {g : Frame} {rest : List Frame} (here : m = .run (.worker s)) (hf : x.frames = g :: rest)
      (own : g.isOwn = true) : m = .run (.worker s) ∧ ∃ rest, x.frames = f :: rest ∧
        ownCode rest = o := by
    rw [hf, ownCode_own own] at code
    obtain ⟨rfl, rfl⟩ := List.cons.inj code
    exact ⟨here, rest, hf, rfl⟩
  cases step with
  | others y away touched =>
    exact .inl ⟨touched.frames ▸ code, fun g rest here => absurd here away⟩
  | foreign g rest fs u y here hf ran notOwn touched =>
    refine .inl ⟨?_, fun g' rest' _ hf' => ?_⟩
    · rwa [ran.ownCode_eq notOwn, ← hf]
    · rw [hf] at hf'
      obtain ⟨rfl, -⟩ := List.cons.inj hf'
      exact notOwn
  | own g rest fs x' c chain here hf own => exact .inr (top here hf own.isOwn)
  | markFailed rest here hf | leave rest here hf => exact .inr (top here hf rfl)
  | reply i r task here =>
    refine .inl ⟨code, fun g rest here' => ?_⟩
    rw [here] at here'
    cases here'
  | turn k y es here idle =>
    rw [idle] at code
    cases code

/-- After it has taken note of something, a worker is in the midst of its refresh. -/
theorem OwnStep.refreshing (own : OwnStep w x f x' c chain fs) (h : x.OnCourse)
    (hf : x.frames = f :: rest) (notes : f.notes = true) : RefreshCode (ownCode (fs ++ rest)) := by
  have course := h.course
  rw [hf, ownCode_own own.isOwn] at course
  rw [ownCode_append]
  generalize x.phase = ph, x.refreshing = q, x.refreshes = k, ownCode rest = o at course
  cases course with
  | refresh _ _ _ code =>
    cases code with
    | noteFee i => cases own; exact .notePeers i
    | notePeers i =>
      cases own
      split <;> exact .noteKnown i
    | noteKnown i =>
      cases own
      split <;> exact .noteHeight i
    | noteHeight i => cases own; exact .setConnected ..
    | noteHeader b =>
      cases own
      split <;> exact .askPool
    | notePool a =>
      cases own with
      | notePool => split <;> exact .refreshed _
      | poolOutdated => exact .refreshed _
    | _ => cases notes
  | _ => cases notes

end Announcing

/-- All code is layered, and nobody has announced anything before it was started. -/
structure World.Telling (w : World) : Prop where
  layers : ∀ t, Layered (w.frames t)
  absent : ∀ s, w.workers[s]? = none → told s w.log = []

namespace World.Telling
variable {w v : World} {m : Move} {s : Nat} {y : Worker}

theorem of_untouched (h : w.Untouched) : w.Telling := by
  constructor
  · intro t
    rw [h.frames]
    trivial
  · intro s _
    rw [h.log]
    rfl

theorem step (h : w.Telling) (step : WorldStep w m v) : v.Telling := by
  refine ⟨fun t => (h.layers t).step (step.threadStep t), fun s absent => ?_⟩
  have before : w.workers[s]? = none := by
    cases hx : w.workers[s]? with
    | none => rfl
    | some x =>
      obtain ⟨y, hy, -⟩ := step.workerStep hx
      rw [absent] at hy
      cases hy
  cases m with
  | run t =>
    obtain ⟨f, rest, fs, u, code, ran, rfl, -⟩ := step.ran
    rw [log_setFrames]
    obtain ⟨-, same⟩ | ⟨n, rfl, -⟩ := ran.told (s := s)
    · rw [same, h.absent s before]
    · obtain ⟨x, hx, -⟩ := worker_of_frames code
      rw [before] at hx
      cases hx
  | call | release | reply =>
    cases step
    exact h.absent s before
  | turn r k =>
    cases step with
    | turn r k x y es hx idle stays turn =>
      change told s (es ++ w.log) = _
      rw [told_append, turn.told, List.nil_append, h.absent s before]

theorem of_reaches (first : w.Untouched) (run : w.Reaches v) : v.Telling :=
  run.keeps (of_untouched first) fun _ _ _ h => h.step

theorem started (h : w.Telling) (step : WorldStep w m v) (absent : w.workers[s]? = none)
    (hy : v.workers[s]? = some y) : v.announces s = [] := by
  obtain ⟨x, hx, -⟩ | ⟨-, t, cb, rest, rfl, code, rfl⟩ := step.cameFrom hy
  · rw [absent] at hx
    cases hx
  · obtain ⟨f, rest', fs, z, code', ran, rfl, -⟩ := step.ran
    rw [code] at code'
    obtain ⟨rfl, rfl⟩ := List.cons.inj code'
    rw [World.announces, frames_worker hy, log_setFrames]
    obtain ⟨-, same⟩ | ⟨n, -, other, -⟩ := ran.told (s := s)
    · rw [same, h.absent s absent]
      rfl
    · cases other

end World.Telling

/-- What every step of a course keeps between what its worker remembers and what it announces holds
wherever a run leads. -/
theorem announces_of_reaches {P : Memory → List Notice → Prop} {w₀ w : World} {s : Nat} {x : Worker}
    (first : w₀.Untouched) (run : w₀.Reaches w) (hx : w.workers[s]? = some x)
    (started : P .initial []) (own : ∀ {w : World} {x x' : Worker} {f : Frame} {c : Connection}
      {chain : ChainView} {fs : List Frame} {ns : List Notice}, OwnStep w x f x' c chain fs →
        P x.memory ns → P x'.memory ((pending fs).reverse ++ ns)) :
    P x.memory (w.announces s) := by
  have all := run.keeps (P := fun w => w.Telling ∧ ∀ (s : Nat) (x : Worker),
    w.workers[s]? = some x → P x.memory (w.announces s)) ?_ ?_
  · exact all.2 s x hx
  · refine ⟨.of_untouched first, fun s x hx => ?_⟩
    rw [first.workers] at hx
    cases hx
  · intro w m v ⟨telling, kept⟩ step
    refine ⟨telling.step step, fun s y hy => ?_⟩
    cases hx : w.workers[s]? with
    | none =>
      rw [telling.started step hx hy]
      obtain ⟨x, hx', -⟩ | ⟨-, t, cb, rest, -, -, rfl⟩ := step.cameFrom hy
      · rw [hx] at hx'
        cases hx'
      · exact started
    | some x =>
      obtain ⟨f, rest, rfl, hf, isOwn⟩ | away := runs_own_or m s x
      · obtain ⟨x', c, fs, ownStep, hy', grown⟩ | ⟨-, -, same, ph, q, hy'⟩ :=
          announces_own (telling.layers _) hx step hf isOwn
        all_goals
          rw [hy] at hy'
          cases hy'
        · rw [grown]
          have now := own ownStep (kept s x hx)
          exact now
        · rw [same]
          exact kept s x hx
      · obtain ⟨same, memory⟩ := announces_away hx step hy away
        rw [same, memory]
        exact kept s x hx

/-- A worker that is about to tell more than its connectivity is in the midst of a refresh. -/
theorem refreshing_of_notify {w₀ w : World} {s : Nat} {x : Worker} {n : Notice}
    (first : w₀.Untouched) (run : w₀.Reaches w) (hx : w.workers[s]? = some x)
    (told : .notify n ∈ x.frames) (other : ∀ b, n ≠ .connected b) :
    RefreshCode (ownCode x.frames) := by
  have all := run.keeps (P := fun w => w.Sound ∧ w.Telling ∧ ∀ (s : Nat) (x : Worker),
    w.workers[s]? = some x → .notify n ∈ x.frames → RefreshCode (ownCode x.frames)) ?_ ?_
  · exact all.2.2 s x hx told
  · refine ⟨.of_untouched first, .of_untouched first, fun s x hx => ?_⟩
    rw [first.workers] at hx
    cases hx
  · intro w m v ⟨sound, telling, midst⟩ step
    refine ⟨sound.step step, telling.step step, fun s y hy told => ?_⟩
    obtain ⟨x, hx, worker⟩ | ⟨-, t, cb, rest, -, -, rfl⟩ := step.cameFrom hy
    · rw [← frames_worker hy] at told
      obtain before | ⟨f, rest, x', c, chain, fs, rfl, hf, own, pushed⟩ :=
        notify_source step hx told
      · have code := midst s x hx before
        have some : ownCode x.frames ≠ [] := fun none => by
          rw [none] at code
          cases code
        obtain ⟨f, o, left⟩ := List.exists_cons_of_ne_nil some
        rw [left] at code
        obtain ⟨same, -⟩ | ⟨-, rest, hf, -⟩ := worker.ownCode_eq left
        · exact same ▸ code
        · -- nothing is told below code of a course
          have isOwn : f.isOwn = true := by cases code <;> rfl
          have layers := telling.layers (.worker s)
          rw [frames_worker hx, hf] at layers
          rw [hf] at before
          obtain rfl | below := List.mem_cons.mp before
          · cases isOwn
          · have := layers.1 isOwn _ below
            cases this
      · have notes : f.notes = true := by
          cases own with
          | notePeers | noteKnown | noteHeader | notePool => rfl
          | setConnected b => exact absurd (by simpa using pushed) (other b)
          | _ => simp at pushed
        obtain ⟨x₂, c₂, chain₂, fs₂, own₂, -, hy₂⟩ | ⟨which, -⟩ :=
          Pass.ran_own step hx hf own.isOwn
        · rw [hy] at hy₂
          cases hy₂
          exact own₂.refreshing (sound.courses s x hx) hf notes
        · rcases which with rfl | rfl <;> cases notes
    · simp [Worker.new] at told

end RemoteNode.Session
