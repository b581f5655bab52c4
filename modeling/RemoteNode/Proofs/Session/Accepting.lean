import RemoteNode.Proofs.Session.Handover

/-! What a worker has been answered. Every reply to a refresh that is accepted starts the code that
takes note of its content, and no other code takes note of anything. -/

namespace RemoteNode.Session

/-- The content of a reply to a refresh. -/
inductive Accepted where
  | info (i : Command.NodeInfo)
  | header (h : Chain.BlockHeader)
  | pool (c : Command.PoolChanges)

/-- What is accepted at a stage. -/
def Stage.accepts : (g : Stage) → g.command.Content → Accepted
  | info, i => .info i
  | header, (r : Chain.HeaderReport) => .header r.header
  | pool _, c => .pool c

/-- The code that takes note of what was accepted. -/
def Accepted.code : Accepted → List Frame
  | info i => [.noteFee i, .notePeers i, .noteKnown i, .noteHeight i]
  | header h => [.noteHeader h, .askPool]
  | pool c => [.notePool c]

/-- The frame takes note of an answer. -/
def Frame.notes : Frame → Bool
  | noteFee _ | notePeers _ | noteKnown _ | noteHeight _ | noteHeader _ | notePool _ => true
  | _ => false

/-- What a worker accepts, where replies may take so long. -/
def Entry.accepted? (s : Nat) (limit : Exchange.Timeout) : Entry → Option Accepted
  | answered r (.refresh g) (.arrival a) =>
    if r = s then
      match answer g.command limit a with
      | .ok c => some (g.accepts c)
      | .error _ => none
    else none
  | _ => none

/-- What a worker has accepted, latest first. -/
def accepted (s : Nat) (limit : Exchange.Timeout) (log : List Entry) : List Accepted :=
  log.filterMap (Entry.accepted? s limit)

section Accepting
variable {w u v : World} {m : Move} {t : Thread} {s : Nat} {x x' y : Worker} {f : Frame}
  {fs rest : List Frame} {c : Connection} {chain : ChainView} {limit : Exchange.Timeout}
  {es log : List Entry} {k : Turn} {e : Entry} {g : Stage}

theorem accepted_append (es log : List Entry) :
    accepted s limit (es ++ log) = accepted s limit es ++ accepted s limit log :=
  List.filterMap_append

theorem isOwn_of_notes (notes : f.notes = true) : f.isOwn = true := by
  cases f <;> first | rfl | cases notes

theorem notes_of_writes (writes : f.writes = true) : f.notes = true := by
  cases f <;> first | rfl | cases writes

theorem exchange_of_accepted {b : Accepted} (h : e.accepted? s limit = some b) :
    ∃ g, e.exchange? = some (s, .refresh g) := by
  cases e with
  | answered r task q =>
    cases task with
    | job => cases h
    | refresh g =>
      cases q with
      | panic => cases h
      | arrival a =>
        simp only [Entry.accepted?, Option.ite_none_right_eq_some] at h
        obtain ⟨rfl, -⟩ := h
        exact ⟨g, rfl⟩
  | _ => cases h

/-- The code for an answer takes note of what was accepted, or of nothing. -/
theorem refreshAnswered_cases (g : Stage) (limit : Exchange.Timeout)
    (a : Exchange.Arrival Exchange.Response) :
    (∃ c, answer g.command limit a = .ok c ∧
        World.refreshAnswered g limit a = (g.accepts c).code) ∨
      (∃ e, answer g.command limit a = .error e) ∧
        ∀ f ∈ World.refreshAnswered g limit a, f.notes = false := by
  cases g with
  | info =>
    simp only [World.refreshAnswered]
    split
    · exact .inl ⟨_, ‹_›, rfl⟩
    · refine .inr ⟨⟨_, ‹_›⟩, ?_⟩
      split <;> simp [Frame.notes]
  | header =>
    simp only [World.refreshAnswered]
    split
    · exact .inl ⟨_, ‹_›, rfl⟩
    · exact .inr ⟨⟨_, ‹_›⟩, by simp [Frame.notes]⟩
  | pool view =>
    simp only [World.refreshAnswered]
    split
    · exact .inl ⟨_, ‹_›, rfl⟩
    · exact .inr ⟨⟨_, ‹_›⟩, by simp [Frame.notes]⟩

/-- An idle worker accepts one reply in a turn and takes note of it next, or none. -/
theorem TurnStep.accepted (step : TurnStep limit s x k y es) (idle : x.frames = []) :
    accepted s limit es = [] ∧ (∀ f ∈ y.frames, f.notes = false) ∨
      ∃ b, accepted s limit es = [b] ∧ y.frames = b.code := by
  have cancelled (z : Worker) (task : Task) : ∀ f ∈ (z.cancelled task).frames, f.notes = false := by
    cases task with
    | job j p => simp [Worker.cancelled, Frame.notes]
    | refresh g =>
      rw [Worker.cancelled]
      split <;> simp [Frame.notes]
  cases step with
  | pollStopped task | interrupt i task => exact .inl ⟨rfl, cancelled _ task⟩
  | beginJob j p rest =>
    refine .inl ⟨rfl, ?_⟩
    obtain ⟨r, e⟩ | e := ({ x with runnable := rest } : Worker).advanced_cases j p
    · simp [e, Frame.notes]
    · rw [e]
      simp [idle]
  | answered task r rest =>
    cases task with
    | job j p =>
      refine .inl ⟨rfl, ?_⟩
      obtain ⟨q, e⟩ | ⟨q, e⟩ :=
        ({ x with runnable := rest } : Worker).answered_job_cases limit j p r
      · simp [e, Frame.notes]
      · rw [e]
        simp [idle]
    | refresh g =>
      cases r with
      | panic message => exact .inl ⟨rfl, by simp [Worker.answered, Frame.notes]⟩
      | arrival a =>
        obtain ⟨c, ok, code⟩ | ⟨⟨e, lost⟩, silent⟩ := refreshAnswered_cases g limit a
        · exact .inr ⟨g.accepts c, by simp [Session.accepted, Entry.accepted?, ok], code⟩
        · exact .inl ⟨by simp [Session.accepted, Entry.accepted?, lost], silent⟩
  | send | beginRefresh | wake | take | close =>
    simp [idle, Session.accepted, Entry.accepted?]
  | wakeStopped | reject | finish => simp [Session.accepted, Frame.notes]

/-- No code of its own but that of an idle worker takes note of anything. -/
theorem OwnStep.notes (own : OwnStep w x f x' c chain fs) : ∀ g ∈ fs, g.notes = false := by
  cases own with
  | notePeers | noteKnown | noteHeader | notePool => split <;> simp [Frame.notes]
  | _ => simp [Frame.notes]

/-- What takes note of something after a step did so before, unless an idle worker goes on. -/
theorem WorkerStep.notes (step : WorkerStep w m s x y) (away : ∀ k, m ≠ .turn s k)
    (hf : f ∈ y.frames) (notes : f.notes = true) : f ∈ x.frames := by
  have own : f.isOwn = true := by
    cases f <;> first | rfl | cases notes
  obtain old | ⟨g, rest, fs, x', c, chain, -, -, own, pushed⟩ | ⟨k, es, here, -⟩ :=
    step.source own hf
  · exact old
  · rw [own.notes f pushed] at notes
    cases notes
  · exact absurd here (away k)

/-- A worker accepts nothing unless it takes a turn. -/
theorem accepted_of_quiet (quiet : ∀ e ∈ es, ∀ task, e.exchange? ≠ some (s, task)) :
    accepted s limit es = [] := by
  refine List.filterMap_eq_nil_iff.mpr fun e he => ?_
  by_contra some
  obtain ⟨b, hb⟩ := Option.ne_none_iff_exists'.mp some
  obtain ⟨g, exchange⟩ := exchange_of_accepted hb
  exact quiet e he _ exchange

/-- In a step a worker accepts one reply and takes note of it next, or none. -/
theorem WorldStep.accepted (hx : w.workers[s]? = some x) (step : WorldStep w m v)
    (hy : v.workers[s]? = some y) : ∃ es, v.log = es ++ w.log ∧
      (accepted s w.timeout es = [] ∧ (∀ f ∈ y.frames, f.notes = true → f ∈ x.frames) ∨
        ∃ b k, accepted s w.timeout es = [b] ∧ m = .turn s k ∧ x.frames = [] ∧
          y.frames = b.code) := by
  obtain ⟨k, es, rfl, idle, turn, log⟩ | ⟨away, es, log, quiet⟩ := step.turn_or_quiet hx hy
  · refine ⟨es, log, ?_⟩
    obtain ⟨none, silent⟩ | ⟨b, one, code⟩ := turn.accepted idle
    · refine .inl ⟨none, fun f hf notes => ?_⟩
      rw [silent f hf] at notes
      cases notes
    · exact .inr ⟨b, k, one, rfl, idle, code⟩
  · obtain ⟨z, hz, worker⟩ := step.workerStep hx
    rw [hy] at hz
    cases hz
    exact ⟨es, log, .inl ⟨accepted_of_quiet quiet, fun f hf notes => worker.notes away hf notes⟩⟩

/-- A worker that is not in the midst of a refresh is about to take note of nothing. -/
theorem Worker.OnCourse.not_notes (h : x.OnCourse) (code : ¬RefreshCode (ownCode x.frames)) :
    ∀ g ∈ x.frames, g.notes = false := by
  have course := h.course
  have none : (ownCode x.frames).any Frame.notes = false := by
    generalize x.phase = p, x.refreshing = q, x.refreshes = n, ownCode x.frames = o at course code ⊢
    cases course with
    | refresh _ _ _ refresh => exact absurd refresh code
    | _ => rfl
  intro g hg
  by_contra notes
  have notes : g.notes = true := by simpa using notes
  exact List.any_eq_false.mp none g ((mem_ownCode (isOwn_of_notes notes)).mpr hg) notes

theorem accepted_absent {w₀ : World} (first : w₀.Untouched) (run : w₀.Reaches w)
    (absent : w.workers[s]? = none) : Session.accepted s limit w.log = [] := by
  refine run.keeps (P := fun w => w.workers[s]? = none → Session.accepted s limit w.log = []) ?_ ?_
    absent
  · rw [first.log]
    exact fun _ => rfl
  · intro w m v before step absent
    have none : w.workers[s]? = none := by
      cases hx : w.workers[s]? with
      | none => rfl
      | some x =>
        obtain ⟨y, hy, -⟩ := step.workerStep hx
        rw [absent] at hy
        cases hy
    obtain ⟨es, log, quiet⟩ := step.quiet (s := s) (by
      rintro k rfl
      cases step with
      | turn _ _ x _ _ hx =>
        rw [none] at hx
        cases hx)
    rw [log, accepted_append, accepted_of_quiet quiet, before none, List.nil_append]

end Accepting

end RemoteNode.Session
