import RemoteNode.Proofs.Session.Clearing
import RemoteNode.Proofs.Session.Connectivity

/-! When a worker asks for the top header. It has to as long as it has fetched none, and again once
the pool was compared with a tail that is outdated, until a header is accepted; and in a refresh
that raises the height of the node. That a refresh raised the height is not remembered, so that
nothing asks again if its request fails. -/

namespace RemoteNode.Session

/-- The top header has to be asked for after what a worker has accepted, latest first. -/
def headerDue : List Accepted → Bool
  | [] => true
  | .header _ :: _ => false
  | .pool c :: bs => !c.tailIsActual || headerDue bs
  | .info _ :: bs => headerDue bs

/-- The top header has to be asked for once the code of a course that is left has run, where it is
due or not `now`. -/
def dueAfter : List Frame → Bool → Bool
  | .noteHeader _ :: _, _ => false
  | .notePool c :: _, now => !c.tailIsActual || now
  | _, now => now

/-- In a step a worker raises the height of the node, or finds that it has no header to go by. -/
def callsForHeader (s : Nat) (e : World × Move) : Bool :=
  match e.2 with
  | .run (.worker r) =>
    match e.1.frames (.worker r) with
    | .noteHeight i :: _ => r = s && e.1.chain.nodeHeight < i.height
    | .askHeader _ :: _ => r = s && e.1.chain.header.hash.isZero
    | _ => false
  | _ => false

/-- The frame belongs to a refresh that the node has answered. -/
def Frame.pursues : Frame → Bool
  | askHeader _ | askPool => true
  | f => f.notes

section Due
variable {w₀ w v : World} {m : Move} {s : Nat} {x y x' : Worker} {f : Frame}
  {fs rest o : List Frame} {c : Connection} {chain : ChainView} {now : Bool} {bs cs : List Accepted}

/-- What is due stays due until a header is accepted. -/
theorem headerDue_append (due : headerDue bs = true) (none : ∀ h, .header h ∉ cs) :
    headerDue (cs ++ bs) = true := by
  induction cs with
  | nil => exact due
  | cons b cs ih =>
    have ih := ih fun h there => none h (List.mem_cons_of_mem _ there)
    cases b with
    | header h => exact absurd (List.mem_cons_self ..) (none h)
    | info i => exact ih
    | pool c => simp [headerDue, ih]

theorem dueAfter_of_quiet (quiet : ∀ g ∈ fs, g.notes = false) : dueAfter fs now = now := by
  unfold dueAfter
  split
  · cases quiet _ (List.mem_cons_self ..)
  · cases quiet _ (List.mem_cons_self ..)
  · rfl

/-- What a worker does on its course leads to the same. -/
theorem OwnStep.dueAfter {p : Phase} {q : Refreshing} {n : Nat} (own : OwnStep w x f x' c chain fs)
    (course : Course p q n (f :: o)) :
    dueAfter (ownCode fs ++ o) x'.memory.headerDue = dueAfter (f :: o) x.memory.headerDue := by
  cases course with
  | refresh p fs stays code =>
    cases code with
    | notePool a =>
      cases own with
      | notePool a ids u actual =>
        change _ = (!a.tailIsActual || x.memory.headerDue)
        rw [actual]
        cases u.isEmpty <;> rfl
      | poolOutdated a outdated =>
        change true = (!a.tailIsActual || x.memory.headerDue)
        rw [outdated]
        rfl
    | notePeers | noteKnown | noteHeader =>
      cases own
      split <;> rfl
    | _ => cases own <;> rfl
  | _ => cases own <;> rfl

/-- Whatever a step means to a worker, it leads to the same, unless an idle worker goes on with an
answer. -/
theorem WorkerStep.dueAfter (course : Course x.phase x.refreshing x.refreshes (ownCode x.frames))
    (step : WorkerStep w m s x y) (quiet : x.frames = [] → ∀ g ∈ y.frames, g.notes = false) :
    dueAfter (ownCode y.frames) y.memory.headerDue =
      dueAfter (ownCode x.frames) x.memory.headerDue := by
  cases step with
  | others y away touched => rw [touched.frames, touched.memory]
  | foreign f rest fs u y here hf ran notOwn touched =>
    have code : ownCode (fs ++ rest) = ownCode x.frames := by rw [ran.ownCode_eq notOwn, hf]
    rw [code, touched.memory]
  | own f rest fs x' c chain here hf own =>
    rw [hf, ownCode_own own.isOwn] at course ⊢
    rw [ownCode_append]
    exact own.dueAfter course
  | markFailed rest here hf | leave rest here hf =>
    rw [hf, ownCode_own rfl] at course ⊢
    generalize x.phase = p, x.refreshing = q, x.refreshes = n, ownCode rest = o at course
    cases course with
    | refresh _ _ _ code => cases code
    | _ => rfl
  | reply => rfl
  | turn k y es here idle stays turn =>
    rw [turn.same.2.2.1, idle, dueAfter_of_quiet fun g own => ?_]
    · rfl
    · exact quiet idle g (List.mem_filter.mp own).1

/-- Wherever a run leads, a worker remembers whether the header is due after what it has accepted,
but for what it has yet to take note of. -/
theorem headerDue_of_reaches (first : w₀.Untouched) (run : w₀.Reaches w)
    (hx : w.workers[s]? = some x) :
    dueAfter (ownCode x.frames) x.memory.headerDue = headerDue (accepted s w.timeout w.log) := by
  have runs := World.ReachesBy.of_reaches run
  clear run
  induction runs generalizing x with
  | refl =>
    rw [first.workers] at hx
    cases hx
  | @step v w m past _ now ih =>
    have step := worldStep_of_step now
    have reach := past.reaches
    rw [show w.timeout = v.timeout from step.settings.2]
    obtain ⟨z, hz, worker⟩ | ⟨rfl, t, cb, rest, rfl, code, rfl⟩ := step.cameFrom hx
    · have ih := ih hz
      have course := ((World.Sound.of_reaches first reach).courses s z hz).course
      obtain ⟨es, log, replies⟩ := step.accepted hz hx
      rw [log, accepted_append]
      obtain ⟨silent, quiet⟩ | ⟨b, k, one, rfl, idle, code⟩ := replies
      · rw [silent, List.nil_append, ← ih]
        exact worker.dueAfter course fun idle f there => by
          by_contra notes
          have := quiet f there (by simpa using notes)
          rw [idle] at this
          cases this
      · have memory : x.memory = z.memory := by
          obtain ⟨k', es', -, -, turn, -⟩ | ⟨away, -⟩ := step.turn_or_quiet hz hx
          · exact turn.same.2.2.1
          · exact absurd rfl (away k)
        rw [one, code, memory, List.singleton_append]
        rw [idle] at ih
        cases b with
        | info i => exact ih
        | header h => rfl
        | pool a => exact congrArg (!a.tailIsActual || ·) ih
    · have none : v.workers[v.workers.length]? = none := List.getElem?_eq_none (Nat.le_refl _)
      obtain ⟨es, log, quiet⟩ := step.quiet (s := v.workers.length) (fun k here => nomatch here)
      rw [log, accepted_append, accepted_of_quiet quiet, accepted_absent first reach none]
      rfl

end Due

/-- How far a worker is with the header in a refresh, since it was between refreshes; whether it was
due then, what has happened since and what was exchanged. -/
inductive Seeking (s : Nat) (limit : Exchange.Timeout) (due : Bool) (k : List (World × Move))
    (es : List Entry) (y : Worker) : Prop
  /-- The node has not said how it stands. -/
  | unheard (none : ∀ i, .info i ∉ accepted s limit es)
    (uncalled : ∀ e ∈ k, callsForHeader s e = false) (flag : y.memory.headerDue = due)
    (asks : ∀ g, .refresh g ∈ y.tasks → g = .info)
    (code : ∀ f ∈ ownCode y.frames, f.pursues = false)
  /-- Its answer is taken note of. -/
  | noting (i : Command.NodeInfo) (uncalled : ∀ e ∈ k, callsForHeader s e = false)
    (flag : y.memory.headerDue = due) (code : .noteHeight i ∈ ownCode y.frames)
  | deciding (raised : Bool) (called : ∀ e ∈ k, callsForHeader s e = true → raised = true)
    (flag : y.memory.headerDue = due) (code : .askHeader raised ∈ ownCode y.frames)
  | ready (first : (.refresh .header, .send) ∈ y.runnable)
  | sent (sent : .sent s (.refresh .header) ∈ es)
  /-- The header is not asked for. -/
  | needless (undue : due = false) (uncalled : ∀ e ∈ k, callsForHeader s e = false)
    (busy : y.refreshing = .busy) (asks : ∀ g, .refresh g ∈ y.tasks → ∃ view, g = .pool view)
    (code : ownCode y.frames = [] ∨ RefreshCode (ownCode y.frames))
    (noted : ∀ i, .noteHeight i ∉ ownCode y.frames) (decided : ∀ b, .askHeader b ∉ ownCode y.frames)
  | given (fails : y.FailsOnly (· = .interrupted))

section Seeking
variable {w₀ w v : World} {m : Move} {s : Nat} {x y x' : Worker} {f : Frame} {fs rest : List Frame}
  {c : Connection} {chain : ChainView} {k : List (World × Move)} {es new : List Entry} {due : Bool}
  {limit : Exchange.Timeout} {t : Turn}

theorem calls_iff {e : World × Move} : callsForHeader s e = true ↔
    e.2 = .run (.worker s) ∧ ∃ f rest, e.1.frames (.worker s) = f :: rest ∧
      ((∃ i, f = .noteHeight i ∧ e.1.chain.nodeHeight < i.height) ∨
        (∃ b, f = .askHeader b) ∧ e.1.chain.header.hash.isZero = true) := by
  obtain ⟨w, m⟩ := e
  simp only [callsForHeader]
  constructor
  · intro calls
    split at calls
    · rename_i r
      split at calls
      · rename_i i rest code
        simp only [Bool.and_eq_true, decide_eq_true_eq] at calls
        obtain ⟨rfl, raises⟩ := calls
        exact ⟨rfl, _, rest, code, .inl ⟨i, rfl, raises⟩⟩
      · rename_i b rest code
        simp only [Bool.and_eq_true, decide_eq_true_eq] at calls
        obtain ⟨rfl, blank⟩ := calls
        exact ⟨rfl, _, rest, code, .inr ⟨⟨b, rfl⟩, blank⟩⟩
      · cases calls
    · cases calls
  · rintro ⟨rfl, f, rest, code, ⟨i, rfl, raises⟩ | ⟨⟨b, rfl⟩, blank⟩⟩
    · simp [code, raises]
    · simp [code, blank]

theorem OwnStep.pursues (own : OwnStep w x f x' c chain fs) (idle : f.pursues = false) :
    (∀ g ∈ fs, g.pursues = false) ∧ x'.memory.headerDue = x.memory.headerDue := by
  cases own with
  | noteFee | notePeers | noteKnown | noteHeight | askHeader | skipHeader | noteHeader | askPool
  | notePool | poolOutdated => cases idle
  | _ => exact ⟨by simp [Frame.pursues, Frame.notes], rfl⟩

/-- Only a frame that notes a height brings up the question whether the header is asked for. -/
theorem OwnStep.settled (own : OwnStep w x f x' c chain fs) (height : ∀ i, f ≠ .noteHeight i) :
    ∀ g ∈ fs, (∀ i, g ≠ .noteHeight i) ∧ ∀ b, g ≠ .askHeader b := by
  cases own with
  | noteHeight i => exact absurd rfl (height i)
  | notePeers | noteKnown | noteHeader | notePool => split <;> simp
  | _ => simp

theorem TurnStep.sends (step : TurnStep limit s x t y new)
    (first : (.refresh .header, .send) ∈ x.runnable) : y.FailsOnly (· = .interrupted) ∨
      .sent s (.refresh .header) ∈ new ∨ (.refresh .header, .send) ∈ y.runnable := by
  have later {task : Task} {r : Ready} {rest : List (Task × Ready)}
      (h : x.runnable = (task, r) :: rest) (other : (task, r) ≠ (.refresh .header, .send)) :
      (.refresh .header, .send) ∈ rest := by
    rw [h] at first
    exact (List.mem_cons.mp first).resolve_left (Ne.symm other)
  have cancelled {z : Worker} (task : Task)
      (left : task.isRefresh = false → (.refresh .header, .send) ∈ z.runnable) :
      (z.cancelled task).FailsOnly (· = .interrupted) ∨
        (.refresh .header, .send) ∈ (z.cancelled task).runnable := by
    cases task with
    | refresh g => exact .inl (z.failsOnly_cancelled (P := (· = .interrupted)) rfl g)
    | job j p => exact .inr (left rfl)
  cases step with
  | pollStopped task r rest stopped h =>
    exact (cancelled (z := { x with runnable := rest }) task fun job =>
      later h (by rintro ⟨⟩; cases job)).imp_right .inr
  | interrupt i task =>
    exact (cancelled (z := { x with waiting := x.waiting.eraseIdx i }) task fun _ =>
      first).imp_right .inr
  | send task rest going h =>
    by_cases same : task = .refresh .header
    · exact .inr (.inl (by rw [same]; exact List.mem_cons_self ..))
    · exact .inr (.inr (later h (by rintro ⟨⟩; exact same rfl)))
  | beginJob j p rest going h =>
    have left := later h nofun
    obtain ⟨r, e⟩ | e := ({ x with runnable := rest } : Worker).advanced_cases j p <;> rw [e]
    · exact .inr (.inr left)
    · exact .inr (.inr (List.mem_append_left _ left))
  | beginRefresh g rest going h => exact .inr (.inr (List.mem_append_left _ (later h nofun)))
  | answered task r rest going h =>
    have left := later h nofun
    cases task with
    | refresh g => cases r <;> exact .inr (.inr left)
    | job j p =>
      obtain ⟨q, e⟩ | ⟨q, e⟩ :=
        ({ x with runnable := rest } : Worker).answered_job_cases limit j p r <;> rw [e]
      · exact .inr (.inr left)
      · exact .inr (.inr (List.mem_append_left _ left))
  | wakeStopped => exact .inl (.inr (.inl rfl))
  | wake | take => exact .inr (.inr (List.mem_append_left _ first))
  | close | reject => exact .inr (.inr first)
  | finish _ _ _ _ spent => exact .inl (.inr (.inl spent))

/-- What a worker runs calls for the header where it raises the height of the node, or asks while
there is none. -/
theorem calls_of_frames (hf : w.frames (.worker s) = f :: rest) :
    callsForHeader s (w, .run (.worker s)) = true ↔
      (∃ i, f = .noteHeight i ∧ w.chain.nodeHeight < i.height) ∨
        (∃ b, f = .askHeader b) ∧ w.chain.header.hash.isZero = true := by
  rw [calls_iff]
  constructor
  · rintro ⟨-, f', rest', code, call⟩
    obtain ⟨rfl, -⟩ := List.cons.inj (hf.symm.trans code)
    exact call
  · exact fun call => ⟨rfl, f, rest, hf, call⟩

theorem uncalled_of_frames (hf : w.frames (.worker s) = f :: rest) (height : ∀ i, f ≠ .noteHeight i)
    (asking : ∀ b, f ≠ .askHeader b) : callsForHeader s (w, m) = false := by
  by_contra calls
  obtain ⟨run, -⟩ := calls_iff.mp (by simpa using calls)
  obtain rfl : m = .run (.worker s) := run
  obtain ⟨i, same, -⟩ | ⟨⟨b, same⟩, -⟩ := (calls_of_frames hf).mp (by simpa using calls)
  · exact height i same
  · exact asking b same

theorem uncalled_of_away (away : m ≠ .run (.worker s)) : callsForHeader s (w, m) = false := by
  by_contra calls
  exact away (calls_iff.mp (by simpa using calls)).1

/-- A height is noted in a refresh only. -/
theorem Course.noting {p : Phase} {q : Refreshing} {n : Nat} {o : List Frame}
    {i : Command.NodeInfo} (course : Course p q n o) (there : .noteHeight i ∈ o) :
    RefreshCode o := by
  cases course <;> first | assumption | simp at there

/-- Whether the header is asked for is decided in a refresh only. -/
theorem Course.deciding {p : Phase} {q : Refreshing} {n : Nat} {o : List Frame} {b : Bool}
    (course : Course p q n o) (there : .askHeader b ∈ o) : RefreshCode o := by
  cases course <;> first | assumption | simp at there

section Frames
variable (here : w.frames (.worker s) = f :: rest) (code : ownCode x.frames = f :: ownCode rest)
  (own : OwnStep w x f x' c chain fs)
include here own

/-- While the answer of the node is taken note of, it stays to be decided whether the header is
asked for, unless its height is noted now. -/
theorem Seeking.own_noting {i : Command.NodeInfo} (refresh : RefreshCode (f :: ownCode rest))
    (uncalled : ∀ e ∈ k, callsForHeader s e = false) (flag : x.memory.headerDue = due)
    (inCode : .noteHeight i ∈ f :: ownCode rest) :
    Seeking s limit due ((w, .run (.worker s)) :: k) es { x' with frames := fs ++ rest } := by
  generalize ho : ownCode rest = o at refresh inCode
  have stays (same : x'.memory.headerDue = x.memory.headerDue)
      (quiet : callsForHeader s (w, .run (.worker s)) = false) (left : .noteHeight i ∈ o) :
      Seeking s limit due ((w, .run (.worker s)) :: k) es { x' with frames := fs ++ rest } := by
    refine .noting i (List.forall_mem_cons.mpr ⟨quiet, uncalled⟩) (same.trans flag) ?_
    rw [ownCode_append, ho]
    exact List.mem_append_right _ left
  cases refresh with
  | noteFee j | notePeers j | noteKnown j =>
    have left := (List.mem_cons.mp inCode).resolve_left nofun
    cases own
    exact stays rfl (uncalled_of_frames here nofun nofun) left
  | noteHeight j =>
    cases own
    refine .deciding (w.chain.raiseNode j.height).1 (List.forall_mem_cons.mpr
      ⟨fun calls => ?_, fun e there calls => ?_⟩) flag ?_
    · obtain ⟨i', same, raises⟩ | ⟨⟨b, same⟩, -⟩ := (calls_of_frames here).mp calls
      · cases same
        exact decide_eq_true raises
      · cases same
    · rw [uncalled e there] at calls
      cases calls
    · rw [ownCode_append]
      exact List.mem_append_left _ (by simp [ownCode, Frame.isOwn])
  | _ => simp at inCode

include code in
/-- Where it is decided, the header is asked for, or it was not due and nothing has called for
it. -/
theorem Seeking.own_deciding {raised : Bool} (course : x.OnCourse)
    (refresh : RefreshCode (f :: ownCode rest)) (absent : ∀ g, .refresh g ∉ x.tasks)
    (called : ∀ e ∈ k, callsForHeader s e = true → raised = true) (flag : x.memory.headerDue = due)
    (inCode : .askHeader raised ∈ f :: ownCode rest) :
    Seeking s limit due ((w, .run (.worker s)) :: k) es { x' with frames := fs ++ rest } := by
  generalize ho : ownCode rest = o at refresh inCode
  cases refresh with
  | setConnected b d =>
    have left := (List.mem_cons.mp inCode).resolve_left (by simp)
    refine .deciding raised (List.forall_mem_cons.mpr ⟨fun calls => ?_, called⟩) ?_ ?_
    · rw [uncalled_of_frames here (by simp) (by simp)] at calls
      cases calls
    · cases own <;> exact flag
    · rw [ownCode_append, ho]
      exact List.mem_append_right _ left
  | askHeader d =>
    obtain rfl : raised = d := by simpa using inCode
    cases own with
    | askHeader => exact .ready (List.mem_append_right _ (List.mem_singleton.mpr rfl))
    | skipHeader _ undue =>
      simp only [Bool.or_eq_false_iff] at undue
      obtain ⟨⟨rfl, remembered⟩, fetched⟩ := undue
      have busy := (course.midst (by rw [code, ho]; exact .askHeader false)).1
      have quiet : callsForHeader s (w, .run (.worker s)) = false := by
        by_contra calls
        obtain ⟨i, same, -⟩ | ⟨-, blank⟩ := (calls_of_frames here).mp (by simpa using calls)
        · cases same
        · rw [fetched] at blank
          cases blank
      refine .needless (flag.symm.trans remembered) (List.forall_mem_cons.mpr
        ⟨quiet, fun e there => ?_⟩) busy (fun g asked => absurd asked (absent g)) ?_ ?_ ?_
      · by_contra calls
        exact Bool.false_ne_true (called e there (by simpa using calls))
      all_goals rw [ownCode_append, ho]
      · exact .inr .askPool
      · simp [ownCode, Frame.isOwn]
      · simp [ownCode, Frame.isOwn]
  | _ => simp at inCode

end Frames

/-- A frame of its course keeps a worker at how far it is with the header. -/
theorem Seeking.own (seeking : Seeking s limit due k es x) (course : x.OnCourse)
    (hx : w.workers[s]? = some x) (hf : x.frames = f :: rest) (own : OwnStep w x f x' c chain fs)
    (goesOn : refreshEnd? s (w, .run (.worker s)) = none) :
    Seeking s limit due ((w, .run (.worker s)) :: k) es { x' with frames := fs ++ rest } := by
  have notEnd := ne_refreshed hx hf goesOn
  have code : ownCode x.frames = f :: ownCode rest := by rw [hf, ownCode_own own.isOwn]
  have now := course.course
  rw [code] at now
  have absent := Pass.unasked course hf own.isOwn
  have here : w.frames (.worker s) = f :: rest := by rw [frames_worker hx, hf]
  cases seeking with
  | given fails => exact .given (failsOnly_step rfl course hx (.own f rest fs x' c chain rfl hf own)
      goesOn fails)
  | sent sent => exact .sent sent
  | ready first =>
    exact absurd (List.mem_append_left _ (List.mem_map_of_mem first)) (absent .header)
  | unheard none uncalled flag asks quiet =>
    rw [code] at quiet
    have idle := quiet f (List.mem_cons_self ..)
    obtain ⟨pushed, same⟩ := own.pursues idle
    have still : callsForHeader s (w, .run (.worker s)) = false :=
      uncalled_of_frames here (by rintro i rfl; cases idle) (by rintro b rfl; cases idle)
    refine .unheard none (List.forall_mem_cons.mpr ⟨still, uncalled⟩) (same.trans flag)
      (fun g asked => ?_) fun g there => ?_
    · obtain old | ⟨-, rfl⟩ | ⟨⟨b, rfl⟩, -⟩ | ⟨rfl, -⟩ := own.asks asked
      · exact absurd old (absent _)
      · rfl
      · cases idle
      · cases idle
    · rw [ownCode_append] at there
      rcases List.mem_append.mp there with new | left
      · exact pushed g (List.mem_filter.mp new).1
      · exact quiet g (List.mem_cons_of_mem _ left)
  | needless undue uncalled busy asks outside noted decided =>
    rw [code] at outside noted decided
    have refresh : RefreshCode (f :: ownCode rest) := outside.resolve_left nofun
    obtain ⟨-, still, left⟩ := own.foreseen refresh notEnd
    have height (i : Command.NodeInfo) : f ≠ .noteHeight i := fun same =>
      noted i (same ▸ List.mem_cons_self ..)
    have asking (b : Bool) : f ≠ .askHeader b := fun same =>
      decided b (same ▸ List.mem_cons_self ..)
    refine .needless undue (List.forall_mem_cons.mpr
      ⟨uncalled_of_frames here height asking, uncalled⟩) (still.trans busy) (fun g asked => ?_)
      (by rwa [ownCode_append]) (fun i there => ?_) fun b there => ?_
    · obtain old | ⟨rfl, -⟩ | ⟨⟨b, same⟩, -⟩ | ⟨-, rfl⟩ := own.asks asked
      · exact absurd old (absent _)
      · cases refresh
      · exact absurd same (asking b)
      · exact ⟨_, rfl⟩
    · rw [ownCode_append] at there
      rcases List.mem_append.mp there with new | left
      · exact (own.settled height _ (List.mem_filter.mp new).1).1 i rfl
      · exact noted i (List.mem_cons_of_mem _ left)
    · rw [ownCode_append] at there
      rcases List.mem_append.mp there with new | left
      · exact (own.settled height _ (List.mem_filter.mp new).1).2 b rfl
      · exact decided b (List.mem_cons_of_mem _ left)
  | noting i uncalled flag inCode =>
    rw [code] at inCode
    exact Seeking.own_noting here own (now.noting inCode) uncalled flag inCode
  | deciding raised called flag inCode =>
    rw [code] at inCode
    exact Seeking.own_deciding here code own course (now.deciding inCode) absent called flag inCode

/-- An answer to the question how the node stands is taken note of, or nothing is asked then. -/
theorem refreshAnswered_info (s : Nat) (limit : Exchange.Timeout)
    (a : Exchange.Arrival Exchange.Response) :
    (∃ i, World.refreshAnswered .info limit a = (Accepted.info i).code) ∨
      Session.accepted s limit [.answered s (.refresh .info) (.arrival a)] = [] ∧
        ∀ g ∈ World.refreshAnswered .info limit a, g.pursues = false := by
  obtain ⟨i, -, code⟩ | ⟨⟨e, lost⟩, -⟩ := refreshAnswered_cases .info limit a
  · exact .inl ⟨i, code⟩
  · refine .inr ⟨by simp [Session.accepted, Entry.accepted?, lost], ?_⟩
    have lost : answer .info limit a = .error e := lost
    simp only [World.refreshAnswered, lost]
    cases e.isTransient <;> simp [Frame.pursues, Frame.notes]

/-- A turn keeps a worker at how far it is with the header, or brings it on with the answer of the
node. -/
theorem Seeking.turn (seeking : Seeking s w.timeout due k es x) (course : x.OnCourse)
    (hx : w.workers[s]? = some x) (idle : x.frames = [])
    (fits : ∀ g m, (.refresh g, .answered (.panic m)) ∉ x.runnable)
    (step : TurnStep w.timeout s x t y new) (worker : WorkerStep w (.turn s t) s x y) :
    Seeking s w.timeout due ((w, .turn s t) :: k) (new ++ es) y := by
  have memory : y.memory = x.memory := step.same.2.2.1
  have uncalled_cons (uncalled : ∀ e ∈ k, callsForHeader s e = false) :
      ∀ e ∈ (w, .turn s t) :: k, callsForHeader s e = false :=
    List.forall_mem_cons.mpr ⟨uncalled_of_away nofun, uncalled⟩
  -- what was accepted starts its code
  have silent (code : ownCode y.frames = []) : accepted s w.timeout new = [] := by
    obtain ⟨silent, -⟩ | ⟨b, -, same⟩ := step.accepted idle
    · exact silent
    · rw [same] at code
      cases b <;> cases code
  cases seeking with
  | given fails => exact .given (failsOnly_step rfl course hx worker rfl fails)
  | sent sent => exact .sent (List.mem_append_right _ sent)
  | ready first =>
    obtain fails | sent | first := step.sends first
    · exact .given fails
    · exact .sent (List.mem_append_left _ sent)
    · exact .ready first
  | noting i uncalled flag inCode | deciding raised called flag inCode =>
    rw [idle] at inCode
    cases inCode
  | unheard none uncalled flag asks code =>
    have still (silent : accepted s w.timeout new = [])
        (quiet : ∀ g ∈ ownCode y.frames, g.pursues = false) :
        Seeking s w.timeout due ((w, .turn s t) :: k) (new ++ es) y := by
      refine .unheard (fun i => ?_) (uncalled_cons uncalled) (by rw [memory, flag])
        (fun g asked => ?_) quiet
      · rw [accepted_append, silent]
        exact none i
      · obtain old | ⟨new, -⟩ | ⟨job, -⟩ := step.source asked
        · exact asks g old
        · cases new
          rfl
        · cases job
    obtain fails | ⟨g, a, there, rfl, frames, -⟩ | ⟨-, code, -⟩ := step.hears idle fits
    · exact .given fails
    · obtain rfl := asks g there
      obtain ⟨i, note⟩ | ⟨silent, quiet⟩ := refreshAnswered_info s w.timeout a
      · refine .noting i (uncalled_cons uncalled) (by rw [memory, flag]) ?_
        rw [frames, note]
        simp [Accepted.code, ownCode, Frame.isOwn]
      · refine still silent fun g there => quiet g ?_
        rw [frames] at there
        exact (List.mem_filter.mp there).1
    · exact still (silent code) (by simp [code])
  | needless undue uncalled busy asks code noted decided =>
    obtain fails | ⟨g, a, there, rfl, frames, same⟩ | ⟨-, code, same⟩ := step.hears idle fits
    · exact .given fails
    · obtain ⟨view, rfl⟩ := asks g there
      obtain ⟨refresh, own⟩ := refreshCode_answered (.pool view) w.timeout a
      have code : ownCode y.frames = World.refreshAnswered (.pool view) w.timeout a := by
        rw [frames, own]
      have unasked := ((course.step worker).midst (code ▸ refresh)).2
      refine .needless undue (uncalled_cons uncalled) (same.trans busy)
        (fun g asked => absurd asked (unasked g)) (.inr (code ▸ refresh)) ?_ ?_
      all_goals
        rw [code]
        simp only [World.refreshAnswered]
        split <;> simp
    · have busy : y.refreshing = .busy := by
        obtain same | asleep := same
        · exact same.trans busy
        · rw [busy] at asleep
          cases asleep
      refine .needless undue (uncalled_cons uncalled) busy (fun g asked => ?_) (.inl code)
        (by simp [code]) (by simp [code])
      obtain old | ⟨-, asleep⟩ | ⟨job, -⟩ := step.source asked
      · exact asks g old
      · rw [‹x.refreshing = .busy›] at asleep
        cases asleep
      · cases job

theorem Seeking.log (silent : accepted s limit new = []) (seeking : Seeking s limit due k es y) :
    Seeking s limit due k (new ++ es) y := by
  cases seeking with
  | unheard none uncalled flag asks code =>
    refine .unheard (fun i => ?_) uncalled flag asks code
    rw [accepted_append, silent]
    exact none i
  | noting i uncalled flag code => exact .noting i uncalled flag code
  | deciding raised called flag code => exact .deciding raised called flag code
  | ready first => exact .ready first
  | sent sent => exact .sent (List.mem_append_right _ sent)
  | needless undue uncalled busy asks code noted decided =>
    exact .needless undue uncalled busy asks code noted decided
  | given fails => exact .given fails

/-- Until a refresh ends, a worker is as far with the header as it can be since it was between
refreshes. -/
theorem Seeking.step (seeking : Seeking s w.timeout due k es x) (course : x.OnCourse)
    (fits : ∀ g m, (.refresh g, .answered (.panic m)) ∉ x.runnable) (hx : w.workers[s]? = some x)
    (step : WorldStep w m v) (goesOn : refreshEnd? s (w, m) = none) :
    ∃ y new, v.workers[s]? = some y ∧ v.log = new ++ w.log ∧
      Seeking s w.timeout due ((w, m) :: k) (new ++ es) y := by
  obtain ⟨y, hy, worker⟩ := step.workerStep hx
  obtain ⟨t, new, rfl, idle, turn, log⟩ | ⟨away, new, log, quiet⟩ := step.turn_or_quiet hx hy
  · exact ⟨y, new, hy, log, seeking.turn course hx idle fits turn worker⟩
  · refine ⟨y, new, hy, log, ?_⟩
    refine Seeking.log (accepted_of_quiet quiet) ?_
    have leaves (memory : y.memory = x.memory) (refreshing : y.refreshing = x.refreshing)
        (runnable : ∀ e ∈ x.runnable, e ∈ y.runnable)
        (tasks : ∀ g, .refresh g ∈ y.tasks → .refresh g ∈ x.tasks)
        (code : ownCode y.frames = ownCode x.frames) (uncalled : callsForHeader s (w, m) = false) :
        Seeking s w.timeout due ((w, m) :: k) es y := by
      have uncalled_cons (before : ∀ e ∈ k, callsForHeader s e = false) :
          ∀ e ∈ (w, m) :: k, callsForHeader s e = false :=
        List.forall_mem_cons.mpr ⟨uncalled, before⟩
      cases seeking with
      | given fails => exact .given (failsOnly_step rfl course hx worker goesOn fails)
      | sent sent => exact .sent sent
      | ready first => exact .ready (runnable _ first)
      | unheard none before flag asks quiet =>
        exact .unheard none (uncalled_cons before) (by rw [memory, flag])
          (fun g asked => asks g (tasks g asked)) (by rwa [code])
      | noting i before flag inCode =>
        exact .noting i (uncalled_cons before) (by rw [memory, flag]) (by rwa [code])
      | deciding raised called flag inCode =>
        refine .deciding raised (List.forall_mem_cons.mpr ⟨fun calls => ?_, called⟩)
          (by rw [memory, flag]) (by rwa [code])
        rw [uncalled] at calls
        cases calls
      | needless undue before busy asks outside noted decided =>
        exact .needless undue (uncalled_cons before) (refreshing.trans busy)
          (fun g asked => asks g (tasks g asked)) (by rwa [code]) (by rwa [code]) (by rwa [code])
    cases worker with
    | others y away touched =>
      exact leaves touched.memory touched.refreshing (fun e there => touched.runnable ▸ there)
        (fun g there => touched.tasks ▸ there) (by rw [touched.frames]) (uncalled_of_away away)
    | foreign f rest fs u y here hf ran notOwn touched =>
      refine leaves touched.memory touched.refreshing (fun e there => touched.runnable ▸ there)
        (fun g there => touched.tasks ▸ there) (by rw [ran.ownCode_eq notOwn, hf])
        (uncalled_of_frames (by rw [frames_worker hx, hf]) ?_ ?_)
      all_goals
        rintro _ rfl
        cases notOwn
    | own f rest fs x' c chain here hf own =>
      subst here
      exact seeking.own course hx hf own goesOn
    | markFailed rest here hf =>
      exact .given (failsOnly_step rfl course hx (.markFailed rest here hf) goesOn
        (failsOnly_of_markFailed course hf))
    | leave => exact .given (.inr (.inl rfl))
    | reply i r task here there fits =>
      subst here
      exact leaves rfl rfl (fun e there => List.mem_append_left _ there)
        (fun g asked => mem_tasks_of_reply there asked) rfl (uncalled_of_away nofun)
    | turn t y new here => exact absurd here (away t)

/-- From where no refresh is under way until one ends, a worker is as far with the header as it can
be. -/
theorem seeking_of_trace (first : w₀.Untouched) (reach : w₀.Reaches w)
    (hx : w.workers[s]? = some x) (between : x.IsBetween)
    (run : World.Trace (fun v m => refreshEnd? s (v, m) = none) w k v) :
    v.timeout = w.timeout ∧ ∃ y es, v.workers[s]? = some y ∧ v.log = es ++ w.log ∧
      Seeking s v.timeout x.memory.headerDue k es y := by
  induction run with
  | nil =>
    have course := ((World.Sound.of_reaches first reach).courses s x hx).course
    have code := between.code
    refine ⟨rfl, x, [], hx, rfl, .unheard (fun i => List.not_mem_nil) (fun e there => ?_) rfl
      (fun g there => ?_) ?_⟩
    · cases there
    · exact absurd rfl (List.countP_eq_zero.mp between.unasked _ there)
    · generalize x.phase = p, x.refreshing = q, x.refreshes = n, ownCode x.frames = o
        at course code ⊢
      cases course with
      | refresh _ _ _ refresh => exact absurd refresh code
      | _ => simp [Frame.pursues, Frame.notes]
  | @step h v u m past goesOn now ih =>
    obtain ⟨limit, y, es, hy, log, seeking⟩ := ih
    have step := worldStep_of_step now
    have reach := reach.trans past.reachesBy.reaches
    have course := (World.Sound.of_reaches first reach).courses s y hy
    obtain ⟨z, new, hz, log', seeking⟩ :=
      seeking.step course (fits_of_reaches first reach hy) hy step goesOn
    have same : u.timeout = v.timeout := step.settings.2
    refine ⟨same.trans limit, z, new ++ es, hz, by rw [log', log, List.append_assoc], ?_⟩
    rwa [same]

/-- When a worker asks for the top header, wherever a run has led. -/
structure HeaderLog (allowed : World → Move → Prop) (w₀ : World) (h : List (World × Move))
    (w : World) (s : Nat) (x : Worker) : Prop where
  /-- Between refreshes it remembers whether the header is due after what it has accepted. -/
  remembers : x.IsBetween → x.memory.headerDue = headerDue (accepted s w.timeout w.log)
  /-- A refresh that is told how the node stands, and is not stopped, asks for the header if it was
  due before and none was accepted since, if it raises the height of the node itself, and if it
  finds no header to go by. -/
  asks : ∀ m r, refreshEnd? s (w, m) = some r → r ≠ .error .interrupted →
    ∃ k l z y es, h = k ++ l ∧ World.Trace allowed w₀ l z ∧ z.workers[s]? = some y ∧ y.IsBetween ∧
      (∀ e ∈ k, refreshEnd? s e = none) ∧ w.log = es ++ z.log ∧
        ((∃ i, .info i ∈ accepted s w.timeout es) →
          ((∃ since before, z.log = since ++ before ∧
              headerDue (accepted s w.timeout before) = true ∧
              ∀ b, .header b ∉ accepted s w.timeout since) ∨
            ∃ e ∈ k, callsForHeader s e = true) →
          .sent s (.refresh .header) ∈ es)

/-- Whatever replies there are, a worker that has no header, or whose tail was outdated, asks in
every refresh until it gets one. -/
theorem headerLog_of_trace {allowed : World → Move → Prop} {h : List (World × Move)}
    (first : w₀.Untouched) (run : World.Trace allowed w₀ h w) (hx : w.workers[s]? = some x) :
    HeaderLog allowed w₀ h w s x := by
  have remembers {z : World} {y : Worker} (hy : z.workers[s]? = some y) (reach : w₀.Reaches z)
      (between : y.IsBetween) : y.memory.headerDue = headerDue (accepted s z.timeout z.log) := by
    have course := (World.Sound.of_reaches first reach).courses s y hy
    rw [← headerDue_of_reaches first reach hy, dueAfter_of_quiet fun g there => ?_]
    exact course.not_notes between.code g (List.mem_filter.mp there).1
  refine ⟨remembers hx run.reachesBy.reaches, fun m r ends completed => ?_⟩
  obtain ⟨rfl, rest, code⟩ := frames_of_refreshEnd? ends
  have hf : x.frames = .refreshed r :: rest := by rw [← frames_worker hx, code]
  have course := (World.Sound.of_reaches first run.reachesBy.reaches).courses s x hx
  obtain ⟨rfl, -⟩ := rest_of_refreshed course hf
  have own : ownCode x.frames = [.refreshed r] := by rw [hf]; rfl
  obtain ⟨k, l, z, y, rfl, before, since, hy, between, -⟩ := exists_between first run hx
  have reach := before.reachesBy.reaches
  obtain ⟨limit, x', es, hx', log, seeking⟩ := seeking_of_trace first reach hy between since
  rw [hx] at hx'
  cases hx'
  refine ⟨k, l, z, y, es, rfl, before, hy, between, since.all_allowed, log, fun told due => ?_⟩
  cases seeking with
  | sent sent => exact sent
  | unheard none =>
    obtain ⟨i, there⟩ := told
    exact absurd there (none i)
  | noting i _ _ inCode | deciding raised _ _ inCode =>
    rw [own] at inCode
    simp at inCode
  | ready first =>
    exact absurd (List.mem_append_left _ (List.mem_map_of_mem first))
      ((course.midst (own ▸ .refreshed r)).2 .header)
  | needless undue uncalled =>
    obtain ⟨earlier, long, zlog, waited, none⟩ | ⟨e, there, calls⟩ := due
    · rw [remembers hy reach between, zlog, accepted_append, ← limit,
        headerDue_append waited none] at undue
      cases undue
    · rw [uncalled e there] at calls
      cases calls
  | given fails =>
    refine absurd fails (not_failsOnly_of_refreshed course hf ?_)
    rintro e rfl rfl
    exact completed rfl

end Seeking

/-- A worker finds its tail outdated; the refresh after that fails at the header. -/
def Node.outdatedAndLost : List Move :=
  opening .connectivity 12 4 6 ++
    .turn 0 .wake :: replied (World.answered World.infoBody) 7 ++
      replied (World.answered (nothingBody 0)) 2 ++
        .turn 0 .wake :: replied (World.answered World.infoBody) 6 ++ replied (.arrival .late) 0

set_option maxRecDepth 20000 in
/-- The header that a worker could not get is due where its refresh ends. -/
theorem headerLog_lost : ∃ h w x, World.Trace (fun _ _ => True) Node.patient h w ∧
    w.workers[0]? = some x ∧ HeaderLog (fun _ _ => True) Node.patient h w 0 x ∧
      refreshEnd? 0 (w, .run (.worker 0)) = some (.error .timeout) ∧
        headerDue (accepted 0 w.timeout w.log) = true := by
  have found : (Node.patient.checkedTrace (fun _ _ => true) [] Node.outdatedAndLost).any (fun r =>
      (r.2.workers[0]?).isSome &&
        refreshEnd? 0 (r.2, .run (.worker 0)) = some (.error .timeout) &&
          headerDue (accepted 0 r.2.timeout r.2.log)) = true := by decide +kernel
  obtain ⟨⟨h, w⟩, run, found⟩ := (Option.any_eq_true ..).mp found
  simp only [Bool.and_eq_true, decide_eq_true_eq, Option.isSome_iff_exists] at found
  obtain ⟨⟨⟨x, hx⟩, ends⟩, due⟩ := found
  have trace : World.Trace (fun _ _ => True) Node.patient h w :=
    .of_checkedTrace (fun _ _ _ => trivial) .nil run
  exact ⟨h, w, x, trace, hx, headerLog_of_trace ⟨1, .standard, true, _, _, rfl⟩ trace hx, ends, due⟩

/-- A worker asks for the top header. -/
def asksForHeader : Entry → Bool
  | .sent _ (.refresh .header) => true
  | _ => false

/-- The accepted reply says how the node stands. -/
def Accepted.isInfo : Accepted → Bool
  | .info _ => true
  | _ => false

set_option maxRecDepth 20000 in
/-- A refresh raises the height of the node and asks for the header, but the request fails. The next
refresh succeeds: it is told how the node stands and what its pool is, and does not ask for the
header again. -/
theorem exists_not_retried : ∃ (v u z : World) (h k : List (World × Move)),
    Node.patient.Reaches v ∧ World.Trace (fun _ _ => True) v h u ∧
      (∃ e ∈ h, callsForHeader 0 e = true) ∧ Node.ends 0 h = [false] ∧
        u.log.countP asksForHeader = v.log.countP asksForHeader + 1 ∧
    World.Trace (fun _ _ => True) u k z ∧
      ((accepted 0 z.timeout z.log).take 2).map Accepted.isInfo = [false, true] ∧
        Node.ends 0 k = [true] ∧ z.log.countP asksForHeader = u.log.countP asksForHeader := by
  have found : (Node.patient.steps (Node.opening .connectivity 12 4 6)).any (fun v =>
      (v.checkedTrace (fun _ _ => true) [] (.turn 0 .wake ::
        Node.replied (World.answered World.higherBody) 7 ++
          Node.replied (.arrival .late) 1)).any fun failing =>
      failing.1.any (callsForHeader 0) && Node.ends 0 failing.1 = [false] &&
        failing.2.log.countP asksForHeader = v.log.countP asksForHeader + 1 &&
      (failing.2.checkedTrace (fun _ _ => true) [] (.turn 0 .wake ::
        Node.replied (World.answered World.higherBody) 7 ++
          Node.replied (World.answered (Node.nothingBody 1)) 2)).any fun next =>
      ((accepted 0 next.2.timeout next.2.log).take 2).map Accepted.isInfo = [false, true] &&
        Node.ends 0 next.1 = [true] &&
        next.2.log.countP asksForHeader = failing.2.log.countP asksForHeader) = true := by
    decide +kernel
  obtain ⟨v, reached, found⟩ := (Option.any_eq_true ..).mp found
  obtain ⟨⟨h, u⟩, run, found⟩ := (Option.any_eq_true ..).mp found
  simp only [Bool.and_eq_true, decide_eq_true_eq, List.any_eq_true, Option.any_eq_true] at found
  obtain ⟨⟨⟨raised, ended⟩, asked⟩, ⟨k, z⟩, onwards, ⟨told, ended'⟩, silent⟩ := found
  exact ⟨v, u, z, h, k, World.reaches_steps reached,
    .of_checkedTrace (fun _ _ _ => trivial) .nil run, raised, ended, asked,
    .of_checkedTrace (fun _ _ _ => trivial) .nil onwards, told, ended', silent⟩

end RemoteNode.Session
