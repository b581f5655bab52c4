import RemoteNode.Proofs.Session.Replaying

/-! What is told of the connectivity. What a worker signals alternates and is what it remembers. A
refresh leaves it as the answer of the node has it, or as it was; and a worker that has signalled a
connection takes it back before it ends. -/

namespace RemoteNode.Session

open Observer (Notice)

/-- The connectivity that a notice tells. -/
def connectivity? : Notice → Option Bool
  | .connected b => some b
  | _ => none

/-- The connectivities that notices tell. -/
def signals (ns : List Notice) : List Bool := ns.filterMap connectivity?

/-- The last of some connectivities, latest first; at first there is no connection. -/
def latest (bs : List Bool) : Bool := bs.head?.getD false

/-- Each of some connectivities, latest first, is another than the last before it. -/
def Alternates : List Bool → Prop
  | [] => True
  | b :: bs => b ≠ latest bs ∧ Alternates bs

/-- The reply to a worker that asked the node how it stands. -/
def Entry.infoReply? (s : Nat) : Entry → Option (Exchange.Arrival Exchange.Response)
  | answered r (.refresh .info) (.arrival a) => if r = s then some a else none
  | _ => none

/-- The replies to a worker that asked the node how it stands, latest first. -/
def infoReplies (s : Nat) (log : List Entry) : List (Exchange.Arrival Exchange.Response) :=
  log.filterMap (Entry.infoReply? s)

/-- The connectivity after such a reply, where it was `before`. -/
def connectivityAfter (limit : Exchange.Timeout) (a : Exchange.Arrival Exchange.Response)
    (before : Bool) : Bool :=
  match answer .info limit a with
  | .ok i => 0 < i.peerCount
  | .error e => if e.isTransient then false else before

/-- The connectivity once the code of a course that is left has run, where it is `now`. -/
def foreseen : List Frame → Bool → Bool
  | .setConnected b :: _, _ => b
  | .noteFee i :: _, _ | .notePeers i :: _, _ | .noteKnown i :: _, _ | .noteHeight i :: _, _ =>
    0 < i.peerCount
  | _, now => now

section Signals
variable {ns os : List Notice} {b : Bool} {bs : List Bool}

theorem signals_append : signals (ns ++ os) = signals ns ++ signals os := List.filterMap_append

/-- What alternates never says the same twice in a row. -/
theorem Alternates.isChain (h : Alternates bs) : bs.IsChain (· ≠ ·) := by
  induction bs with
  | nil => exact .nil
  | cons b bs ih =>
    cases bs with
    | nil => exact .singleton b
    | cons c bs => exact .cons_cons h.1 (ih h.2)

theorem Alternates.first (h : Alternates bs) (last : bs.getLast? = some b) : b = true := by
  induction bs with
  | nil => cases last
  | cons c bs ih =>
    cases bs with
    | nil =>
      cases last
      simpa [latest] using h.1
    | cons d bs => exact ih h.2 (by simpa using last)

theorem Alternates.of_append {cs : List Bool} (h : Alternates (bs ++ cs)) : Alternates cs := by
  induction bs with
  | nil => exact h
  | cons b bs ih => exact ih h.2

end Signals

section Runs
variable {w₀ w u v : World} {m : Move} {s : Nat} {x y x' : Worker} {f : Frame}
  {fs rest o : List Frame} {c : Connection} {chain : ChainView} {es log : List Entry} {b : Bool}
  {limit : Exchange.Timeout} {as : List (Exchange.Arrival Exchange.Response)} {k : Turn}
  {h : List (World × Move)} {allowed : World → Move → Prop}

theorem infoReplies_append :
    infoReplies s (es ++ log) = infoReplies s es ++ infoReplies s log := List.filterMap_append

/-- A worker that exchanges nothing with the node has no reply. -/
theorem infoReplies_of_quiet (quiet : ∀ e ∈ es, ∀ task, e.exchange? ≠ some (s, task)) :
    infoReplies s es = [] := by
  refine List.filterMap_eq_nil_iff.mpr fun e he => ?_
  have none := quiet e he
  cases e with
  | answered r task q =>
    unfold Entry.infoReply?
    split
    · rename_i same
      cases same
      exact if_neg fun here => none _ (by rw [here]; rfl)
    · rfl
  | _ => rfl

/-- Wherever a run leads, what a worker signals alternates and is what it remembers. -/
theorem alternates_of_reaches (first : w₀.Untouched) (run : w₀.Reaches w)
    (hx : w.workers[s]? = some x) : Alternates (signals (w.announces s)) ∧
      latest (signals (w.announces s)) = x.memory.connected := by
  refine announces_of_reaches
    (P := fun m ns => Alternates (signals ns) ∧ latest (signals ns) = m.connected) first run hx
    ⟨trivial, rfl⟩ fun {w x x' f c chain fs ns} own kept => ?_
  rw [signals_append]
  cases own with
  | setConnected b change => exact ⟨⟨fun same => change (kept.2.symm.trans same.symm), kept.1⟩, rfl⟩
  | notePeers | noteKnown | noteHeader | notePool => split <;> exact kept
  | _ => exact kept

/-- Until a refresh ends, what it brings up leads to the same connectivity. -/
theorem OwnStep.foreseen (own : OwnStep w x f x' c chain fs) (code : RefreshCode (f :: o))
    (goesOn : ∀ r, f ≠ .refreshed r) : foreseen (ownCode fs ++ o) x'.memory.connected =
      foreseen (f :: o) x.memory.connected ∧ x'.refreshing = x.refreshing ∧
        (ownCode fs ++ o = [] ∨ RefreshCode (ownCode fs ++ o)) := by
  cases code with
  | noteFee i => cases own; exact ⟨rfl, rfl, .inr (.notePeers i)⟩
  | notePeers i =>
    cases own
    split <;> exact ⟨rfl, rfl, .inr (.noteKnown i)⟩
  | noteKnown i =>
    cases own
    split <;> exact ⟨rfl, rfl, .inr (.noteHeight i)⟩
  | noteHeight i => cases own; exact ⟨rfl, rfl, .inr (.setConnected ..)⟩
  | setConnected b due =>
    cases own with
    | stayConnected _ same => exact ⟨same, rfl, .inr (.askHeader due)⟩
    | setConnected => exact ⟨rfl, rfl, .inr (.askHeader due)⟩
  | askHeader due =>
    cases own with
    | askHeader => exact ⟨rfl, rfl, .inl rfl⟩
    | skipHeader => exact ⟨rfl, rfl, .inr .askPool⟩
  | noteHeader b =>
    cases own
    split <;> exact ⟨rfl, rfl, .inr .askPool⟩
  | askPool => cases own; exact ⟨rfl, rfl, .inl rfl⟩
  | notePool a =>
    cases own with
    | notePool => split <;> exact ⟨rfl, rfl, .inr (.refreshed _)⟩
    | poolOutdated => exact ⟨rfl, rfl, .inr (.refreshed _)⟩
  | lost e =>
    cases own with
    | stayConnected _ same => exact ⟨same, rfl, .inr (.refreshed _)⟩
    | setConnected => exact ⟨rfl, rfl, .inr (.refreshed _)⟩
  | refreshed r => exact absurd rfl (goesOn r)

/-- In the midst of a refresh nothing is asked. -/
theorem Worker.OnCourse.midst (course : x.OnCourse) (code : RefreshCode (ownCode x.frames)) :
    x.refreshing = .busy ∧ ∀ g, .refresh g ∉ x.tasks := by
  have course := course.course
  have now : x.refreshing = .busy ∧ x.refreshes = 0 := by
    generalize x.phase = p, x.refreshing = q, x.refreshes = n, ownCode x.frames = o at course code
    cases course <;> first | exact ⟨rfl, rfl⟩ | cases code
  exact ⟨now.1, fun g there => List.countP_eq_zero.mp now.2 _ there rfl⟩

/-- An answer to another question leaves the connectivity alone. -/
theorem foreseen_answered {g : Stage} (other : g ≠ .info) (a : Exchange.Arrival Exchange.Response) :
    foreseen (World.refreshAnswered g limit a) b = b := by
  cases g with
  | info => exact absurd rfl other
  | header | pool => simp only [World.refreshAnswered]; split <;> rfl

/-- An answer to the question how the node stands decides the connectivity. -/
theorem foreseen_info (a : Exchange.Arrival Exchange.Response) :
    foreseen (World.refreshAnswered .info limit a) b = connectivityAfter limit a b := by
  simp only [World.refreshAnswered, connectivityAfter]
  cases answer .info limit a with
  | ok i => rfl
  | error e => cases h : e.isTransient <;> simp [foreseen, h]

/-- What has become of the connectivity since a worker was between refreshes, where it was `b` then:
the node was not asked yet, or it has answered once, or no refresh is brought to its end any
more. -/
inductive Hearing (limit : Exchange.Timeout) (b : Bool) :
    List (Exchange.Arrival Exchange.Response) → Worker → Prop
  | unheard (y : Worker) (same : y.memory.connected = b)
    (asks : ∀ g, .refresh g ∈ y.tasks → g = .info) (code : ¬RefreshCode (ownCode y.frames)) :
    Hearing limit b [] y
  | heard (a : Exchange.Arrival Exchange.Response) (y : Worker) (busy : y.refreshing = .busy)
    (asks : ∀ g, .refresh g ∈ y.tasks → g ≠ .info)
    (code : ownCode y.frames = [] ∨ RefreshCode (ownCode y.frames))
    (comes : foreseen (ownCode y.frames) y.memory.connected = connectivityAfter limit a b) :
    Hearing limit b [a] y
  | lost (as : List (Exchange.Arrival Exchange.Response)) (y : Worker)
    (fails : y.FailsOnly (· = .interrupted)) : Hearing limit b as y

/-- A frame of its course keeps a worker at what it has heard. -/
theorem Hearing.own (hearing : Hearing limit b as x) (course : x.OnCourse)
    (hx : w.workers[s]? = some x) (hf : x.frames = f :: rest) (own : OwnStep w x f x' c chain fs)
    (goesOn : refreshEnd? s (w, .run (.worker s)) = none) :
    Hearing limit b as { x' with frames := fs ++ rest } := by
  have notEnd := ne_refreshed hx hf goesOn
  have code : ownCode x.frames = f :: ownCode rest := by rw [hf, ownCode_own own.isOwn]
  have now := course.course
  rw [code] at now
  have absent := Pass.unasked course hf own.isOwn
  cases hearing with
  | lost as x fails =>
    exact .lost _ _
      (failsOnly_step rfl course hx (.own f rest fs x' c chain rfl hf own) goesOn fails)
  | heard a x busy asks between comes =>
    rw [code] at between comes
    have refresh : RefreshCode (f :: ownCode rest) := between.resolve_left nofun
    obtain ⟨same, still, left⟩ := own.foreseen refresh notEnd
    refine .heard a _ (still.trans busy) (fun g asked => ?_) ?_ ?_
    · have asked : .refresh g ∈ x'.tasks := asked
      obtain old | ⟨rfl, -⟩ | ⟨-, rfl⟩ | ⟨-, rfl⟩ := own.asks asked
      · exact absurd old (absent g)
      · cases refresh
      · nofun
      · nofun
    · rwa [ownCode_append]
    · rw [ownCode_append]
      exact same.trans comes
  | unheard x same asks outside =>
    rw [code] at outside
    have leaves (there : .leave ∈ fs ++ rest) :
        Hearing limit b [] { x' with frames := fs ++ rest } := .lost _ _ (.inr (.inr there))
    have inRest (there : .leave ∈ ownCode rest) : .leave ∈ fs ++ rest :=
      List.mem_append_right _ ((mem_ownCode rfl).mp there)
    have stays (memory : x'.memory = x.memory) (outside : ¬RefreshCode (ownCode (fs ++ rest)))
        (heading : ∀ due, f ≠ .askHeader due) (pooling : f ≠ .askPool) :
        Hearing limit b [] { x' with frames := fs ++ rest } := by
      refine .unheard _ (by rw [memory, same]) (fun g asked => ?_) outside
      have asked : .refresh g ∈ x'.tasks := asked
      obtain old | ⟨-, rfl⟩ | ⟨⟨due, here⟩, -⟩ | ⟨here, -⟩ := own.asks asked
      · exact absurd old (absent g)
      · rfl
      · exact absurd here (heading due)
      · exact absurd here pooling
    generalize x.phase = p, x.refreshes = n, hq : x.refreshing = q, ho : ownCode rest = o at now
    cases now with
    | refresh _ _ _ refresh => exact absurd (ho ▸ refresh) outside
    | lost | refused => exact leaves (inRest (by rw [ho]; simp))
    | hush =>
      refine .lost _ _ (.inr (.inl ?_))
      cases own <;> exact hq
    | failed | leave | finish => cases own
    | connect =>
      cases own with
      | connect => exact stays rfl (by rw [ownCode_append, ho]; nofun) nofun nofun
      | noTransport => exact leaves (by simp)
    | mark =>
      cases own with
      | markInitialized => exact stays rfl (by rw [ownCode_append, ho]; nofun) nofun nofun
      | markRefused => exact leaves (by simp)
    | goLive =>
      cases own
      exact stays rfl (by rw [ownCode_append, ho]; nofun) nofun nofun

/-- In a turn a worker gives a refresh up, goes on with an answer to one, or leaves it alone. -/
theorem TurnStep.hears (step : TurnStep limit s x k y es) (idle : x.frames = [])
    (fits : ∀ g m, (.refresh g, .answered (.panic m)) ∉ x.runnable) :
    y.FailsOnly (· = .interrupted) ∨
      (∃ g a, .refresh g ∈ x.tasks ∧ es = [.answered s (.refresh g) (.arrival a)] ∧
        y.frames = World.refreshAnswered g limit a ∧ y.refreshing = x.refreshing) ∨
      infoReplies s es = [] ∧ ownCode y.frames = [] ∧
        (y.refreshing = x.refreshing ∨ x.refreshing = .asleep) := by
  have cancelled {z : Worker} (task : Task) (same : z.refreshing = x.refreshing) :
      (z.cancelled task).FailsOnly (· = .interrupted) ∨ ownCode (z.cancelled task).frames = [] ∧
        (z.cancelled task).refreshing = x.refreshing := by
    cases task with
    | job j p => exact .inr ⟨rfl, same⟩
    | refresh g => exact .inl (z.failsOnly_cancelled (P := (· = .interrupted)) rfl g)
  cases step with
  | pollStopped task r rest =>
    exact (cancelled (z := { x with runnable := rest }) task rfl).imp_right fun h =>
      .inr ⟨rfl, h.1, .inl h.2⟩
  | interrupt i task =>
    exact (cancelled (z := { x with waiting := x.waiting.eraseIdx i }) task rfl).imp_right fun h =>
      .inr ⟨rfl, h.1, .inl h.2⟩
  | beginJob j p rest =>
    refine .inr (.inr ⟨rfl, ?_⟩)
    obtain ⟨r, same⟩ | same := ({ x with runnable := rest } : Worker).advanced_cases j p
    · rw [same]
      exact ⟨rfl, .inl rfl⟩
    · rw [same]
      exact ⟨congrArg ownCode idle, .inl rfl⟩
  | answered task r rest going first =>
    cases task with
    | job j p =>
      refine .inr (.inr ⟨rfl, ?_⟩)
      obtain ⟨q, same⟩ | ⟨q, same⟩ :=
        ({ x with runnable := rest } : Worker).answered_job_cases limit j p r
      · rw [same]
        exact ⟨rfl, .inl rfl⟩
      · rw [same]
        exact ⟨congrArg ownCode idle, .inl rfl⟩
    | refresh g =>
      cases r with
      | panic message =>
        exact absurd (by rw [first]; exact List.mem_cons_self ..) (fits g message)
      | arrival a =>
        refine .inr (.inl ⟨g, a, ?_, rfl, rfl, rfl⟩)
        simp [Worker.tasks, first]
  | wakeStopped => exact .inl (.inr (.inl rfl))
  | finish _ _ _ _ spent => exact .inl (.inr (.inl spent))
  | wake asleep => exact .inr (.inr ⟨rfl, congrArg ownCode idle, .inr asleep⟩)
  | reject => exact .inr (.inr ⟨rfl, rfl, .inl rfl⟩)
  | send | beginRefresh | take | close =>
    exact .inr (.inr ⟨rfl, congrArg ownCode idle, .inl rfl⟩)

/-- A turn keeps a worker at what it has heard, unless it goes on with the answer of the node. -/
theorem Hearing.turn (hearing : Hearing limit b as x) (course : x.OnCourse)
    (hx : w.workers[s]? = some x) (idle : x.frames = [])
    (fits : ∀ g m, (.refresh g, .answered (.panic m)) ∉ x.runnable)
    (step : TurnStep w.timeout s x k y es)
    (worker : WorkerStep w (.turn s k) s x y) (same : w.timeout = limit) :
    Hearing limit b (infoReplies s es ++ as) y := by
  subst same
  have memory : y.memory = x.memory := step.same.2.2.1
  obtain fails | ⟨g, a, there, rfl, frames, still⟩ | ⟨silent, code, still⟩ := step.hears idle fits
  · exact .lost _ _ fails
  · obtain ⟨refresh, own⟩ := refreshCode_answered g w.timeout a
    have code : ownCode y.frames = World.refreshAnswered g w.timeout a := by rw [frames, own]
    obtain ⟨busy, unasked⟩ := (course.step worker).midst (code ▸ refresh)
    cases hearing with
    | lost as x fails => exact .lost _ _ (failsOnly_step rfl course hx worker rfl fails)
    | heard a' x busy' asks between comes =>
      have other := asks g there
      have none : infoReplies s [.answered s (.refresh g) (.arrival a)] = [] := by
        cases g <;> first | exact absurd rfl other | rfl
      rw [none, List.nil_append]
      refine .heard a' y busy (fun g asked => absurd asked (unasked g)) (.inr (code ▸ refresh)) ?_
      rw [idle] at comes
      rw [code, foreseen_answered other, memory]
      exact comes
    | unheard x same asks outside =>
      obtain rfl := asks g there
      have one : infoReplies s [.answered s (.refresh .info) (.arrival a)] = [a] := by
        simp [infoReplies, Entry.infoReply?]
      rw [one, List.append_nil]
      refine .heard a y busy (fun g asked => absurd asked (unasked g)) (.inr (code ▸ refresh)) ?_
      rw [code, foreseen_info, memory, same]
  · rw [silent, List.nil_append]
    cases hearing with
    | lost as x fails => exact .lost _ _ (failsOnly_step rfl course hx worker rfl fails)
    | heard a x busy asks between comes =>
      refine .heard a y ?_ (fun g asked => ?_) (.inl code) ?_
      · obtain same | asleep := still
        · exact same.trans busy
        · rw [busy] at asleep
          cases asleep
      · obtain old | ⟨-, asleep⟩ | ⟨job, -⟩ := step.source asked
        · exact asks g old
        · rw [busy] at asleep
          cases asleep
        · cases job
      · rw [idle] at comes
        rw [code, memory]
        exact comes
    | unheard x same asks outside =>
      refine .unheard y (by rw [memory, same]) (fun g asked => ?_) (by rw [code]; nofun)
      obtain old | ⟨new, -⟩ | ⟨job, -⟩ := step.source asked
      · exact asks g old
      · cases new
        rfl
      · cases job

/-- No reply to a refresh that is ready makes it panic. -/
theorem fits_of_reaches (first : w₀.Untouched) (run : w₀.Reaches w) (hx : w.workers[s]? = some x) :
    ∀ g m, (.refresh g, .answered (.panic m)) ∉ x.runnable := by
  refine run.keepsWorker (P := fun x => ∀ g m, (.refresh g, .answered (.panic m)) ∉ x.runnable)
    first hx (fun cb g m ready => ?_) fun u m x z _ _ fits worker => worker.readyFits fits
  cases ready

/-- Until a refresh ends, a worker is at what it has heard since it was between refreshes. -/
theorem Hearing.step (hearing : Hearing w.timeout b as x) (course : x.OnCourse)
    (fits : ∀ g m, (.refresh g, .answered (.panic m)) ∉ x.runnable) (hx : w.workers[s]? = some x)
    (step : WorldStep w m v) (goesOn : refreshEnd? s (w, m) = none) :
    ∃ y es, v.workers[s]? = some y ∧ v.log = es ++ w.log ∧
      Hearing w.timeout b (infoReplies s es ++ as) y := by
  obtain ⟨y, hy, worker⟩ := step.workerStep hx
  obtain ⟨k, es, rfl, idle, turn, log⟩ | ⟨away, es, log, quiet⟩ := step.turn_or_quiet hx hy
  · exact ⟨y, es, hy, log, hearing.turn course hx idle fits turn worker rfl⟩
  · refine ⟨y, es, hy, log, ?_⟩
    rw [infoReplies_of_quiet quiet, List.nil_append]
    have leaves (memory : y.memory = x.memory) (refreshing : y.refreshing = x.refreshing)
        (tasks : ∀ g, .refresh g ∈ y.tasks → .refresh g ∈ x.tasks)
        (code : ownCode y.frames = ownCode x.frames) : Hearing w.timeout b as y := by
      cases hearing with
      | lost as x fails => exact .lost _ _ (failsOnly_step rfl course hx worker goesOn fails)
      | heard a x busy asks between comes =>
        refine .heard a y (refreshing.trans busy) (fun g asked => asks g (tasks g asked)) ?_ ?_
        · rwa [code]
        · rwa [code, memory]
      | unheard x same asks outside =>
        exact .unheard y (by rw [memory, same]) (fun g asked => asks g (tasks g asked))
          (by rwa [code])
    cases worker with
    | others y away touched =>
      exact leaves touched.memory touched.refreshing (fun g there => touched.tasks ▸ there)
        (by rw [touched.frames])
    | foreign f rest fs u y here hf ran notOwn touched =>
      exact leaves touched.memory touched.refreshing (fun g there => touched.tasks ▸ there)
        (by rw [ran.ownCode_eq notOwn, hf])
    | own f rest fs x' c chain here hf own =>
      subst here
      exact hearing.own course hx hf own goesOn
    | markFailed rest here hf =>
      exact .lost _ _ (failsOnly_step rfl course hx (.markFailed rest here hf) goesOn
        (failsOnly_of_markFailed course hf))
    | leave => exact .lost _ _ (.inr (.inl rfl))
    | reply i r task here there fits =>
      exact leaves rfl rfl (fun g asked => mem_tasks_of_reply there asked) rfl
    | turn k y es here => exact absurd here (away k)

theorem RefreshCode.stays (code : RefreshCode fs) : .connect ∉ fs ∧ .leave ∉ fs := by
  cases code <;> simp

/-- A worker that leaves or that refreshes no more takes back what it has signalled. -/
structure Worker.Hushes (x : Worker) : Prop where
  unmet : .connect ∈ ownCode x.frames → x.memory.connected = false
  ends : x.refreshing = .over ∨ .leave ∈ ownCode x.frames →
    foreseen (ownCode x.frames) x.memory.connected = false

/-- A frame of its course brings a worker on that takes back what it has signalled. -/
theorem Worker.Hushes.own (hushes : x.Hushes) (course : x.OnCourse) (hf : x.frames = f :: rest)
    (own : OwnStep w x f x' c chain fs) :
    ({ x' with frames := fs ++ rest } : Worker).Hushes := by
  obtain ⟨unmet, ends⟩ := hushes
  have now := course.course
  rw [hf, ownCode_own own.isOwn] at now unmet ends
  -- what matters is the code that is left
  suffices goal : (.connect ∈ ownCode fs ++ ownCode rest → x'.memory.connected = false) ∧
      (x'.refreshing = .over ∨ .leave ∈ ownCode fs ++ ownCode rest →
        foreseen (ownCode fs ++ ownCode rest) x'.memory.connected = false) by
    rw [← ownCode_append] at goal
    exact ⟨goal.1, goal.2⟩
  generalize x.phase = p, x.refreshes = n, hq : x.refreshing = q, ownCode rest = o
    at now unmet ends
  cases now with
  | connect =>
    cases own with
    | connect => exact ⟨nofun, fun spent => by simp [hq] at spent⟩
    | noTransport => exact ⟨by simp [ownCode, Frame.isOwn], fun _ => unmet (List.mem_cons_self ..)⟩
  | refresh p fs' stays code =>
    by_cases done : ∃ r, f = .refreshed r
    · obtain ⟨r, rfl⟩ := done
      cases code
      cases own with
      | opened => exact ⟨by simp [ownCode, Frame.isOwn], by simp [ownCode, Frame.isOwn, hq]⟩
      | lost => exact ⟨by simp [ownCode, Frame.isOwn], fun _ => rfl⟩
      | refreshed => exact ⟨by simp, by simp⟩
    · obtain ⟨-, still, left⟩ := own.foreseen code fun r here => done ⟨r, here⟩
      have code : .connect ∉ ownCode fs ++ o ∧ .leave ∉ ownCode fs ++ o := by
        rcases left with none | code
        · simp [none]
        · exact code.stays
      refine ⟨fun there => absurd there code.1, ?_⟩
      rintro (spent | there)
      · rw [still, hq] at spent
        cases spent
      · exact absurd there code.2
  | mark =>
    cases own with
    | markInitialized => exact ⟨by simp [ownCode, Frame.isOwn], by simp [ownCode, Frame.isOwn, hq]⟩
    | markRefused => exact ⟨by simp [ownCode, Frame.isOwn], fun _ => rfl⟩
  | goLive => cases own; exact ⟨by simp, by simp⟩
  | lost | refused | hush =>
    cases own with
    | stayConnected b same => exact ⟨fun _ => same, fun _ => same⟩
    | setConnected => exact ⟨fun _ => rfl, fun _ => rfl⟩
  | failed | leave | finish => cases own

/-- An idle worker that refreshes no more or leaves did not refresh before, or takes back now what
it has signalled. -/
theorem TurnStep.over (step : TurnStep limit s x k y es) (idle : x.frames = [])
    (spent : y.refreshing = .over ∨ .leave ∈ y.frames) :
    x.refreshing = .over ∨ y.frames = [.setConnected false] := by
  have cancelled {z : Worker} (task : Task) (same : z.refreshing = x.refreshing)
      (spent : (z.cancelled task).refreshing = .over ∨ .leave ∈ (z.cancelled task).frames) :
      x.refreshing = .over ∨ (z.cancelled task).frames = [.setConnected false] := by
    cases task with
    | job j p => exact .inl (by simpa [Worker.cancelled, same] using spent)
    | refresh g =>
      rw [Worker.cancelled] at spent ⊢
      split at spent
      · exact .inl (by simpa [same] using spent)
      · exact .inr (by rw [if_neg ‹_›])
  cases step with
  | pollStopped task r rest => exact cancelled (z := { x with runnable := rest }) task rfl spent
  | interrupt i task =>
    exact cancelled (z := { x with waiting := x.waiting.eraseIdx i }) task rfl spent
  | beginJob j p rest =>
    obtain ⟨r, same⟩ | same := ({ x with runnable := rest } : Worker).advanced_cases j p <;>
      rw [same] at spent <;> exact .inl (by simpa [idle] using spent)
  | answered task r rest =>
    cases task with
    | job j p =>
      obtain ⟨q, same⟩ | ⟨q, same⟩ :=
        ({ x with runnable := rest } : Worker).answered_job_cases limit j p r <;>
          rw [same] at spent <;> exact .inl (by simpa [idle] using spent)
    | refresh g =>
      cases r with
      | panic message => exact .inl (spent.resolve_right (by simp [Worker.answered]))
      | arrival a =>
        refine .inl (spent.resolve_right fun leaves => ?_)
        exact (refreshCode_answered g limit a).1.stays.2 leaves
  | wakeStopped => exact .inr rfl
  | finish _ _ _ _ gone => exact .inl gone
  | wake => simp [idle] at spent
  | send | beginRefresh | take | close | reject =>
    exact .inl (spent.resolve_right (by simp [idle]))

/-- Whatever a step means to a worker, it takes back what it has signalled. -/
theorem Worker.Hushes.step (hushes : x.Hushes) (course : x.OnCourse) (step : WorkerStep w m s x y) :
    y.Hushes := by
  cases step with
  | others y away touched =>
    constructor <;> rw [touched.frames, touched.memory]
    · exact hushes.unmet
    · rw [touched.refreshing]
      exact hushes.ends
  | foreign f rest fs u y here hf ran notOwn touched =>
    have code : ownCode (fs ++ rest) = ownCode x.frames := by rw [ran.ownCode_eq notOwn, hf]
    have memory : y.memory = x.memory := touched.memory
    constructor <;> dsimp only <;> rw [code, memory]
    · exact hushes.unmet
    · rw [touched.refreshing]
      exact hushes.ends
  | own f rest fs x' c chain here hf own => exact hushes.own course hf own
  | markFailed rest here hf | leave rest here hf =>
    have course := course.course
    have ends := hushes.ends
    rw [hf, ownCode_own rfl] at course ends
    have left : foreseen (ownCode rest) x.memory.connected = false ∧ .connect ∉ ownCode rest := by
      generalize x.phase = p, x.refreshing = q, x.refreshes = n, ownCode rest = o at course ends
      cases course with
      | refresh _ _ _ code => cases code
      | _ => exact ⟨ends (by simp), by simp⟩
    exact ⟨fun there => absurd there left.2, fun _ => left.1⟩
  | reply => exact ⟨hushes.unmet, hushes.ends⟩
  | turn k y es here idle stays turn =>
    have memory : y.memory = x.memory := turn.same.2.2.1
    have midst := (course.step (.turn k y es here idle stays turn)).midst
    have code := turn.code idle
    refine ⟨fun there => ?_, fun spent => ?_⟩
    · rw [mem_ownCode rfl] at there
      generalize y.frames = o at code there
      cases code with
      | refresh _ code => exact absurd there code.stays.1
      | _ => simp at there
    · rw [mem_ownCode rfl] at spent
      rw [memory]
      obtain before | hush := turn.over idle spent
      · have quiet := hushes.ends (.inl before)
        rw [idle] at quiet
        generalize y.frames = o at code midst spent ⊢
        cases code with
        | refresh o code own =>
          exfalso
          rcases spent with spent | leaves
          · rw [(midst (by rwa [own])).1] at spent
            cases spent
          · exact code.stays.2 leaves
        | hush => rfl
        | _ => exact quiet
      · rw [hush]
        rfl

theorem hushes_of_reaches (first : w₀.Untouched) (run : w₀.Reaches w)
    (hx : w.workers[s]? = some x) :
    x.Hushes :=
  run.keepsWorker first hx (fun _ => ⟨fun _ => rfl, fun _ => rfl⟩)
    fun _ _ x _ reach hx hushes worker =>
    hushes.step ((World.Sound.of_reaches first reach).courses s x hx) worker

theorem pending_of_ended (first : w₀.Untouched) (run : w₀.Reaches w) (hx : w.workers[s]? = some x)
    (ended : x.phase = .ended) : pending x.frames = [] := by
  have silent := run.keepsWorker
    (P := fun x => x.phase = .ended → ∀ g ∈ x.frames, g.mayTell = false) first hx nofun ?_
  · refine pending_eq_nil fun n there => ?_
    have := silent ended _ there
    cases this
  · intro u m x z reach hx silent worker
    have layers := (World.Telling.of_reaches first reach).layers (.worker s)
    rw [frames_worker hx] at layers
    exact ended_step ((World.Sound.of_reaches first reach).courses s x hx) layers silent worker

/-- In every history a worker was between refreshes, with nothing left to announce, after which no
refresh of it has ended. -/
theorem exists_between (first : w₀.Untouched) (run : World.Trace allowed w₀ h w)
    (hx : w.workers[s]? = some x) : ∃ k l z y, h = k ++ l ∧ World.Trace allowed w₀ l z ∧
      World.Trace (fun v m => refreshEnd? s (v, m) = none) z k w ∧ z.workers[s]? = some y ∧
        y.IsBetween ∧ pending y.frames = [] := by
  induction run generalizing x with
  | nil =>
    rw [first.workers] at hx
    cases hx
  | @step h v u m past may now ih =>
    obtain ⟨z, hz, -⟩ | ⟨-, t, cb, rest, -, -, rfl⟩ := (worldStep_of_step now).cameFrom hx
    · cases ends : refreshEnd? s (v, m) with
      | none =>
        obtain ⟨k, l, z', y, rfl, before, since, found⟩ := ih hz
        exact ⟨(v, m) :: k, l, z', y, rfl, before, .step m since ends now, found⟩
      | some r =>
        have course := (World.Sound.of_reaches first past.reachesBy.reaches).courses s z hz
        obtain ⟨y, hy, between, -, -, quiet⟩ := between_of_refreshEnd course hz ends now
        exact ⟨[], _, u, y, rfl, .step m past may now, .nil, hy, between, quiet⟩
    · exact ⟨[], _, u, _, rfl, .step m past may now, .nil, hx, ⟨rfl, nofun⟩, rfl⟩

/-- From where no refresh is under way until one ends, a worker is at what it has heard since. -/
theorem hearing_of_trace (first : w₀.Untouched) (reach : w₀.Reaches w)
    (hx : w.workers[s]? = some x) (between : x.IsBetween)
    (run : World.Trace (fun v m => refreshEnd? s (v, m) = none) w h u) :
    u.timeout = w.timeout ∧ ∃ y es, u.workers[s]? = some y ∧ u.log = es ++ w.log ∧
      Hearing u.timeout x.memory.connected (infoReplies s es) y := by
  induction run with
  | nil =>
    refine ⟨rfl, x, [], hx, rfl, .unheard x rfl (fun g there => ?_) between.code⟩
    exact absurd rfl (List.countP_eq_zero.mp between.unasked _ there)
  | @step h v u m past goesOn now ih =>
    obtain ⟨limit, y, es, hy, log, hearing⟩ := ih
    have step := worldStep_of_step now
    have reach := reach.trans past.reachesBy.reaches
    have course := (World.Sound.of_reaches first reach).courses s y hy
    obtain ⟨z, new, hz, log', hearing⟩ :=
      hearing.step course (fits_of_reaches first reach hy) hy step goesOn
    have same : u.timeout = v.timeout := step.settings.2
    refine ⟨same.trans limit, z, new ++ es, hz, by rw [log', log, List.append_assoc], ?_⟩
    rwa [same, infoReplies_append]

/-- What a worker has told of the connectivity, wherever a run has led. -/
structure Connectivity (allowed : World → Move → Prop) (w₀ : World) (h : List (World × Move))
    (w : World) (s : Nat) (x : Worker) : Prop where
  /-- Nothing is told twice in a row. -/
  alternates : (signals (told s w.log)).IsChain (· ≠ ·)
  /-- What is told first is that there is a connection. -/
  first : ∀ b, (signals (told s w.log)).getLast? = some b → b = true
  /-- A refresh that was not stopped has heard the node once since the worker was between refreshes;
  where it ends, the connectivity is what the answer makes of what was told by then. -/
  refreshes : ∀ m r, refreshEnd? s (w, m) = some r → r ≠ .error .interrupted →
    ∃ k l z y es a, h = k ++ l ∧ World.Trace allowed w₀ l z ∧ z.workers[s]? = some y ∧
      y.IsBetween ∧ (∀ e ∈ k, refreshEnd? s e = none) ∧ w.log = es ++ z.log ∧
        infoReplies s es = [a] ∧ latest (signals (told s w.log)) =
          connectivityAfter w.timeout a (latest (signals (told s z.log)))
  /-- A worker that has ended has told nothing, or last that there is no connection. -/
  ended : x.phase = .ended → latest (signals (told s w.log)) = false

/-- Whatever replies there are and whenever it is stopped, a worker tells of the connectivity by
turns, as its refreshes find it, and takes a connection back before it ends. -/
theorem connectivity_of_trace (first : w₀.Untouched) (run : World.Trace allowed w₀ h w)
    (hx : w.workers[s]? = some x) : Connectivity allowed w₀ h w s x := by
  have reach := run.reachesBy.reaches
  have course := (World.Sound.of_reaches first reach).courses s x hx
  have settled {z : World} {y : Worker} (hy : z.workers[s]? = some y) (reach : w₀.Reaches z)
      (quiet : pending y.frames = []) : latest (signals (told s z.log)) = y.memory.connected := by
    have told := (alternates_of_reaches first reach hy).2
    rw [World.announces, frames_worker hy, quiet] at told
    exact told
  have alternates : Alternates (signals (told s w.log)) := by
    have all := (alternates_of_reaches first reach hx).1
    rw [World.announces, signals_append] at all
    exact all.of_append
  refine ⟨alternates.isChain, fun b => alternates.first, fun m r ends completed => ?_,
    fun ended => ?_⟩
  · obtain ⟨rfl, rest, code⟩ := frames_of_refreshEnd? ends
    have hf : x.frames = .refreshed r :: rest := by rw [← frames_worker hx, code]
    obtain ⟨rfl, -⟩ := rest_of_refreshed course hf
    obtain ⟨k, l, z, y, rfl, before, since, hy, between, quiet⟩ := exists_between first run hx
    have reachZ := before.reachesBy.reaches
    obtain ⟨-, x', es, hx', log, hearing⟩ := hearing_of_trace first reachZ hy between since
    rw [hx] at hx'
    cases hx'
    rw [← settled hy reachZ quiet] at hearing
    have now := settled hx reach (by rw [hf]; rfl)
    generalize heard : infoReplies s es = as at hearing
    cases hearing with
    | unheard _ same asks outside =>
      refine absurd ?_ outside
      rw [hf]
      exact .refreshed r
    | lost as _ fails =>
      refine absurd fails (not_failsOnly_of_refreshed course hf ?_)
      rintro e rfl rfl
      exact completed rfl
    | heard a _ busy asks code comes =>
      rw [hf] at comes
      exact ⟨k, l, z, y, es, a, rfl, before, hy, between, since.all_allowed, log, heard,
        now.trans comes⟩
  · have quiet := pending_of_ended first reach hx ended
    have hushes := (hushes_of_reaches first reach hx).ends
    have course := course.course
    rw [settled hx reach quiet]
    rw [ended] at course
    generalize x.refreshing = q, x.refreshes = n, ownCode x.frames = o at course hushes
    cases course with
    | refresh _ _ stays => exact absurd rfl stays
    | asked _ stays => exact absurd rfl stays
    | asleep _ h | hush _ h | spent _ h => rcases h with h | h <;> cases h
    | ended => exact hushes (.inl rfl)

end Runs

/-- A caller initializes; the node has peers, but the first refresh fails at the header. -/
def Node.openingLost : List Move :=
  .call 0 (.init "first" []) :: List.replicate 3 (.run (.caller 0)) ++
    .run (.worker 0) :: replied (World.answered World.infoBody) 9 ++ replied (.arrival .late) 0

set_option maxRecDepth 20000 in
/-- Where the first refresh ends, a worker has told of a connection; before it ends it takes it
back. -/
theorem connectivity_takenBack : ∃ h w x k u y,
    World.Trace (fun _ _ => True) Node.patient h w ∧ w.workers[0]? = some x ∧
      Connectivity (fun _ _ => True) Node.patient h w 0 x ∧
        refreshEnd? 0 (w, .run (.worker 0)) = some (.error .timeout) ∧
          signals (told 0 w.log) = [true] ∧
    World.Trace (fun _ _ => True) Node.patient k u ∧ u.workers[0]? = some y ∧
      Connectivity (fun _ _ => True) Node.patient k u 0 y ∧ y.phase = .ended ∧
        signals (told 0 u.log) = [false, true] := by
  have found : (Node.patient.checkedTrace (fun _ _ => true) [] Node.openingLost).any (fun r =>
      (r.2.workers[0]?).isSome && signals (told 0 r.2.log) = [true] &&
        refreshEnd? 0 (r.2, .run (.worker 0)) = some (.error .timeout) &&
        (r.2.checkedTrace (fun _ _ => true) r.1 (List.replicate 8 (.run (.worker 0)))).any fun q =>
          (q.2.workers[0]?).any fun y => y.phase = .ended &&
            signals (told 0 q.2.log) = [false, true]) = true := by decide +kernel
  obtain ⟨⟨h, w⟩, run, found⟩ := (Option.any_eq_true ..).mp found
  simp only [Bool.and_eq_true, Option.any_eq_true, decide_eq_true_eq, Option.isSome_iff_exists]
    at found
  obtain ⟨⟨⟨⟨x, hx⟩, once⟩, ends⟩, ⟨k, u⟩, onwards, y, hy, ended, twice⟩ := found
  have trace : World.Trace (fun _ _ => True) Node.patient h w :=
    .of_checkedTrace (fun _ _ _ => trivial) .nil run
  have trace' : World.Trace (fun _ _ => True) Node.patient k u :=
    .of_checkedTrace (fun _ _ _ => trivial) trace onwards
  have first : Node.patient.Untouched := ⟨1, .standard, true, _, _, rfl⟩
  exact ⟨h, w, x, k, u, y, trace, hx, connectivity_of_trace first trace hx, ends, once, trace', hy,
    connectivity_of_trace first trace' hy, ended, twice⟩

end RemoteNode.Session
