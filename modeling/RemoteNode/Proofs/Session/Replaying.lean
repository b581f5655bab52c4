import RemoteNode.Proofs.Session.Accepting
import RemoteNode.Proofs.Session.Announcing
import RemoteNode.Proofs.Session.Convergence
import RemoteNode.Proofs.Session.Results

/-! What is told of the pool. Whoever replays the updates that a worker announces has the ids that
the worker knows, each once; every update changes what is there, and nothing is told twice. -/

namespace RemoteNode.Session

open Observer (Notice)

/-- The ids that someone has who is told of some updates, latest first: what was removed is dropped
first, then what was added is put to the rest. -/
def replay : List PoolUpdate → List Hash
  | [] => []
  | u :: us => (replay us).filter (fun id => !u.removed.contains id) ++ u.added

/-- Every update says something and names no id twice; what it removes was there, and what it adds
was not there without these. -/
def Exact : List PoolUpdate → Prop
  | [] => True
  | u :: us => u.isEmpty = false ∧ u.removed.Nodup ∧ u.added.Nodup ∧
      (∀ id ∈ u.removed, id ∈ replay us) ∧ (∀ id ∈ u.added, id ∈ replay us → id ∈ u.removed) ∧
      Exact us

/-- The ids that are known, each once, are those of the updates, which are exact. -/
structure Kept (ids : PoolIds) (us : List PoolUpdate) : Prop where
  nodup : ids.Nodup
  perm : (replay us).Perm ids
  exact : Exact us

section Updates
variable {new gone : List Hash} {ids : PoolIds} {us vs : List PoolUpdate} {u : PoolUpdate}
  {x : Hash}

theorem mem_replay : x ∈ replay (u :: us) ↔ (x ∈ replay us ∧ x ∉ u.removed) ∨ x ∈ u.added := by
  simp [replay]

/-- Replaying exact updates has no id twice. -/
theorem nodup_replay (h : Exact us) : (replay us).Nodup := by
  induction us with
  | nil => exact List.nodup_nil
  | cons u us ih =>
    obtain ⟨-, -, added, -, fresh, earlier⟩ := h
    refine List.nodup_append.mpr ⟨(ih earlier).filter _, added, fun id left id' inAdded same => ?_⟩
    subst same
    obtain ⟨before, still⟩ := List.mem_filter.mp left
    simp [fresh id inAdded before] at still

theorem Exact.of_append (h : Exact (us ++ vs)) : Exact vs := by
  induction us with
  | nil => exact h
  | cons u us ih => exact ih h.2.2.2.2.2

/-- A change goes on with what is kept: what it reports is exact, and if it reports nothing it
changes nothing. -/
theorem Kept.change (h : Kept ids us) (new gone : List Hash) :
    Kept (ids.change new gone).1
      (if (ids.change new gone).2.isEmpty then us else (ids.change new gone).2 :: us) := by
  have mem (id : Hash) : id ∈ (ids.change new gone).1 ↔
      (id ∈ ids ∧ id ∉ (ids.change new gone).2.removed) ∨ id ∈ (ids.change new gone).2.added := by
    simp only [PoolIds.change, PoolIds.mem_addAll, PoolIds.mem_added, PoolIds.mem_dropped h.nodup,
      PoolIds.mem_dropAll h.nodup]
    tauto
  have nodup : (ids.change new gone).1.Nodup := PoolIds.nodup_change h.nodup
  cases empty : (ids.change new gone).2.isEmpty with
  | true =>
    refine ⟨nodup, ?_, h.exact⟩
    simp only [PoolUpdate.isEmpty, Bool.and_eq_true, List.isEmpty_iff] at empty
    refine h.perm.trans ((List.perm_ext_iff_of_nodup h.nodup nodup).mpr fun id => ?_)
    rw [mem, empty.1, empty.2]
    simp
  | false =>
    have exact : Exact ((ids.change new gone).2 :: us) := by
      refine ⟨empty, PoolIds.nodup_dropped h.nodup, PoolIds.nodup_added, fun id removed => ?_,
        fun id added before => ?_, h.exact⟩
      · exact h.perm.mem_iff.mpr ((PoolIds.mem_dropped h.nodup).mp removed).1
      · have before := h.perm.mem_iff.mp before
        have absent := (PoolIds.mem_added.mp added).1
        rw [PoolIds.mem_dropAll h.nodup] at absent
        refine (PoolIds.mem_dropped h.nodup).mpr ⟨before, ?_⟩
        by_contra still
        exact absent ⟨before, still⟩
    refine ⟨nodup, (List.perm_ext_iff_of_nodup (nodup_replay exact) nodup).mpr fun id => ?_, exact⟩
    rw [mem_replay, mem, h.perm.mem_iff]

end Updates

/-- The update of the pool that a notice tells. -/
def poolUpdate? : Notice → Option PoolUpdate
  | .pool added removed => some ⟨added, removed⟩
  | _ => none

/-- The updates of the pool that notices tell. -/
def poolUpdates (ns : List Notice) : List PoolUpdate := ns.filterMap poolUpdate?

/-- What was accepted about the pool. -/
def Accepted.pool? : Accepted → Option Command.PoolChanges
  | pool c => some c
  | _ => none

/-- A worker makes up its request about the pool in a step. -/
def asksPool (s : Nat) (e : World × Move) : Bool :=
  match e.2 with
  | .run (.worker r) =>
    match e.1.frames (.worker r) with
    | .askPool :: _ => r = s
    | _ => false
  | _ => false

section Runs
variable {w₀ w u v : World} {m : Move} {s : Nat} {x y x' : Worker} {f : Frame}
  {fs rest : List Frame} {c : Connection} {chain : ChainView} {us : List PoolUpdate}
  {view : Command.PoolView} {allowed : World → Move → Prop} {h : List (World × Move)}

theorem poolUpdates_append (ns os : List Notice) :
    poolUpdates (ns ++ os) = poolUpdates ns ++ poolUpdates os := List.filterMap_append

/-- What a worker does on its own course goes on with what is kept of the pool. -/
theorem OwnStep.kept (own : OwnStep w x f x' c chain fs) (h : Kept x.memory.known us) :
    Kept x'.memory.known (poolUpdates (pending fs).reverse ++ us) := by
  cases own with
  | notePool a ids update actual change =>
    have kept := h.change (a.added.map Chain.Transaction.id) a.deleted
    rw [change] at kept
    cases empty : update.isEmpty <;> rw [empty] at kept <;> exact kept
  | notePeers | noteKnown | noteHeader => split <;> exact h
  | _ => exact h

/-- Wherever a run leads, what a worker announces of the pool is what it knows of it. -/
theorem kept_of_reaches (first : w₀.Untouched) (run : w₀.Reaches w)
    (hx : w.workers[s]? = some x) : Kept x.memory.known (poolUpdates (w.announces s)) := by
  refine announces_of_reaches (P := fun m ns => Kept m.known (poolUpdates ns)) first run hx
    ⟨List.nodup_nil, .refl _, trivial⟩ fun own kept => ?_
  rw [poolUpdates_append]
  exact own.kept kept

/-- A request about the pool was made before, or its worker makes it up now. -/
theorem WorkerStep.poolTask (course : x.OnCourse) (step : WorkerStep w m s x y)
    (asked : .refresh (.pool view) ∈ y.tasks) :
    (.refresh (.pool view) ∈ x.tasks ∧ y.memory.known = x.memory.known) ∨
      ∃ rest, m = .run (.worker s) ∧ x.frames = .askPool :: rest ∧
        view = ⟨w.chain.header.hash, x.memory.known⟩ ∧ y.memory.known = x.memory.known := by
  cases step with
  | others y away touched =>
    rw [touched.tasks] at asked
    exact .inl ⟨asked, by rw [touched.memory]⟩
  | foreign f rest fs u y here hf ran notOwn touched =>
    refine .inl ⟨?_, congrArg Memory.known touched.memory⟩
    change _ ∈ y.tasks at asked
    rwa [touched.tasks] at asked
  | own f rest fs x' c chain here hf own =>
    obtain old | ⟨-, new⟩ | ⟨-, new⟩ | ⟨rfl, new⟩ := own.asks asked
    · exact absurd old (Pass.unasked course hf own.isOwn _)
    · cases new
    · cases new
    · cases new
      cases own
      exact .inr ⟨rest, here, hf, rfl, rfl⟩
  | markFailed | leave => exact .inl ⟨asked, rfl⟩
  | reply i r task here there fits => exact .inl ⟨mem_tasks_of_reply there asked, rfl⟩
  | turn k y es here idle stays turn =>
    refine .inl ⟨?_, by rw [turn.same.2.2.1]⟩
    obtain old | ⟨new, -⟩ | ⟨job, -⟩ := turn.source asked
    · exact old
    · cases new
    · cases job

theorem asksPool_iff {e : World × Move} : asksPool s e = true ↔
    e.2 = .run (.worker s) ∧ ∃ rest, e.1.frames (.worker s) = .askPool :: rest := by
  obtain ⟨w, m⟩ := e
  simp only [asksPool]
  constructor
  · intro asks
    split at asks
    · split at asks
      · rename_i r rest code
        obtain rfl := of_decide_eq_true asks
        exact ⟨rfl, rest, code⟩
      · cases asks
    · cases asks
  · rintro ⟨rfl, rest, code⟩
    simp [code]

/-- Wherever a run leads, a request about the pool names the ids that are known, and the hash of the
header that was known when it was made up. -/
theorem asked_of_trace (first : w₀.Untouched) (run : World.Trace allowed w₀ h w)
    (hx : w.workers[s]? = some x) (asked : .refresh (.pool view) ∈ x.tasks) :
    view.known = x.memory.known ∧
      ∃ e, h.find? (asksPool s) = some e ∧ view.tail = e.1.chain.header.hash := by
  induction run generalizing x with
  | nil =>
    rw [first.workers] at hx
    cases hx
  | @step h v u m past may now ih =>
    have step := worldStep_of_step now
    obtain ⟨z, hz, worker⟩ | ⟨-, t, cb, rest, -, -, rfl⟩ := step.cameFrom hx
    · have course := (World.Sound.of_reaches first past.reachesBy.reaches).courses s z hz
      obtain ⟨old, same⟩ | ⟨rest, rfl, code, rfl, same⟩ := worker.poolTask course asked
      · obtain ⟨known, e, latest, tail⟩ := ih hz old
        refine ⟨known.trans same.symm, e, ?_, tail⟩
        -- while the request is there, no other is made up
        rw [List.find?_cons_of_neg, latest]
        intro again
        obtain ⟨-, rest, code⟩ := asksPool_iff.mp again
        rw [frames_worker hz] at code
        exact Pass.unasked course code rfl _ old
      · refine ⟨same.symm, _, List.find?_cons_of_pos ?_, rfl⟩
        exact asksPool_iff.mpr ⟨rfl, rest, by rw [frames_worker hz, code]⟩
    · simp [Worker.new, Worker.tasks] at asked

theorem OwnStep.unmoved (own : OwnStep w x f x' c chain fs)
    (other : ∀ a, f = .notePool a → a.tailIsActual = false) :
    x'.memory.known = x.memory.known ∧ poolUpdates (pending fs).reverse = [] := by
  cases own with
  | notePool a ids update actual =>
    rw [other a rfl] at actual
    cases actual
  | notePeers | noteKnown | noteHeader => split <;> exact ⟨rfl, rfl⟩
  | _ => exact ⟨rfl, rfl⟩

/-- How far a refresh has come with the pool that began with some ids and some updates: what has
been accepted since, what its worker is now, and what it has announced by now. -/
inductive Midway (ids : PoolIds) (us : List PoolUpdate) (bs : List Accepted) (y : Worker)
    (vs : List PoolUpdate) : Prop
  | asking (unheard : bs.filterMap Accepted.pool? = []) (unnoted : ∀ a, .notePool a ∉ y.frames)
    (same : y.memory.known = ids ∧ vs = us) : Midway ids us bs y vs
  | noting (a : Command.PoolChanges) (one : bs.filterMap Accepted.pool? = [a])
    (code : ownCode y.frames = [.notePool a]) (same : y.memory.known = ids ∧ vs = us) :
    Midway ids us bs y vs
  | noted (a : Command.PoolChanges) (one : bs.filterMap Accepted.pool? = [a])
    (code : ownCode y.frames = [.refreshed (.ok ())])
    (same : a.tailIsActual = false → y.memory.known = ids ∧ vs = us) : Midway ids us bs y vs

/-- Until a refresh ends, it accepts one reply about the pool at most, and moves the pool only if
the tail was actual. -/
theorem Midway.step {ids : PoolIds} {bs : List Accepted}
    (midway : Midway ids us bs x (poolUpdates (w.announces s)))
    (layers : Layered (w.frames (.worker s))) (hx : w.workers[s]? = some x)
    (step : WorldStep w m v) (goesOn : refreshEnd? s (w, m) = none) :
    ∃ y es, v.workers[s]? = some y ∧ v.log = es ++ w.log ∧
      Midway ids us (accepted s w.timeout es ++ bs) y (poolUpdates (v.announces s)) := by
  obtain ⟨y, hy, worker⟩ := step.workerStep hx
  obtain ⟨es, log, replies⟩ := step.accepted hx hy
  refine ⟨y, es, hy, log, ?_⟩
  -- code of a course that stays leaves the pool alone
  have stays (away : ∀ f rest, m = .run (.worker s) → x.frames = f :: rest → f.isOwn = false)
      (same : x.memory.known = ids ∧ poolUpdates (w.announces s) = us) :
      y.memory.known = ids ∧ poolUpdates (v.announces s) = us := by
    obtain ⟨still, memory⟩ := announces_away hx step hy away
    rw [still, memory]
    exact same
  -- so does code that takes note of something else, or of a tail that is outdated
  have leaves {f : Frame} {rest : List Frame} (here : m = .run (.worker s))
      (hf : x.frames = f :: rest)
      (isOwn : f.isOwn = true) (other : ∀ a, f = .notePool a → a.tailIsActual = false)
      (same : x.memory.known = ids ∧ poolUpdates (w.announces s) = us) :
      y.memory.known = ids ∧ poolUpdates (v.announces s) = us := by
    subst here
    obtain ⟨x', c, fs, own, hy', grown⟩ | ⟨-, -, still, ph, q, hy'⟩ :=
      announces_own layers hx step hf isOwn
    all_goals
      rw [hy] at hy'
      cases hy'
    · obtain ⟨known, nothing⟩ := own.unmoved other
      rw [grown, poolUpdates_append, nothing]
      exact ⟨known.trans same.1, same.2⟩
    · rw [still]
      exact same
  have silent (idle : x.frames ≠ []) : accepted s w.timeout es = [] := by
    obtain ⟨silent, -⟩ | ⟨b, k, -, -, empty, -⟩ := replies
    · exact silent
    · exact absurd empty idle
  cases midway with
  | asking unheard unnoted same =>
    obtain ⟨silent, before⟩ | ⟨b, k, one, rfl, idle, code⟩ := replies
    · rw [silent, List.nil_append]
      refine .asking unheard (fun a noted => unnoted a (before _ noted rfl)) ?_
      obtain ⟨f, rest, here, hf, isOwn⟩ | away := runs_own_or m s x
      · refine leaves here hf isOwn (fun a isNote => absurd ?_ (unnoted a)) same
        rw [hf, isNote]
        exact List.mem_cons_self ..
      · exact stays away same
    · have same := stays (fun _ _ here => nomatch here) same
      rw [one]
      cases b with
      | pool a =>
        have known : Accepted.pool? (.pool a) = some a := rfl
        refine .noting a ?_ (by rw [code]; rfl) same
        exact (List.filterMap_cons_some known).trans (congrArg (a :: ·) unheard)
      | info | header =>
        refine .asking ?_ (by simp [code, Accepted.code]) same
        exact (List.filterMap_cons_none rfl).trans unheard
  | noting a one code same =>
    rw [silent (by rintro idle; rw [idle] at code; cases code), List.nil_append]
    obtain ⟨left, kept⟩ | ⟨rfl, rest, hf, below⟩ := worker.ownCode_eq code
    · exact .noting a one left (stays (fun f rest here hf => kept f rest here hf) same)
    · refine .noted a one ?_ fun outdated => leaves rfl hf rfl (fun a' isNote => ?_) same
      · obtain ⟨x', c, fs, own, hy', -⟩ | ⟨which, -⟩ := announces_own layers hx step hf rfl
        · rw [hy] at hy'
          cases hy'
          rw [ownCode_append, below]
          generalize v.chain = chain at own
          cases own with
          | notePool => split <;> rfl
          | poolOutdated => rfl
        · rcases which with same | same <;> cases same
      · cases isNote
        exact outdated
  | noted a one code same =>
    rw [silent (by rintro idle; rw [idle] at code; cases code), List.nil_append]
    obtain ⟨left, kept⟩ | ⟨rfl, rest, hf, -⟩ := worker.ownCode_eq code
    · exact .noted a one left fun outdated =>
        stays (fun f rest here hf => kept f rest here hf) (same outdated)
    · rw [refreshEnd?_of_frames (by rw [frames_worker hx, hf])] at goesOn
      cases goesOn

theorem poolUpdates_announces
    (settled : ∀ added removed, .notify (.pool added removed) ∉ w.frames (.worker s)) :
    poolUpdates (w.announces s) = poolUpdates (told s w.log) := by
  have none : poolUpdates (pending (w.frames (.worker s))).reverse = [] := by
    refine List.filterMap_eq_nil_iff.mpr fun n inPending => ?_
    have there := mem_pending.mp (List.mem_reverse.mp inPending)
    cases n with
    | pool added removed => exact absurd there (settled added removed)
    | _ => rfl
  rw [World.announces, poolUpdates_append, none, List.nil_append]

/-- From where no refresh is under way until one ends, a worker is in the midst of one at most. -/
theorem midway_of_trace (first : w₀.Untouched) (reach : w₀.Reaches w)
    (hx : w.workers[s]? = some x) (between : x.IsBetween)
    (run : World.Trace (fun v m => refreshEnd? s (v, m) = none) w h u) :
    u.timeout = w.timeout ∧ ∃ y es, u.workers[s]? = some y ∧ u.log = es ++ w.log ∧
      Midway x.memory.known (poolUpdates (w.announces s)) (accepted s w.timeout es) y
        (poolUpdates (u.announces s)) := by
  induction run with
  | nil =>
    have course := (World.Sound.of_reaches first reach).courses s x hx
    refine ⟨rfl, x, [], hx, rfl, .asking rfl (fun a noted => ?_) ⟨rfl, rfl⟩⟩
    have := course.not_notes between.code _ noted
    cases this
  | @step h v u m past goesOn now ih =>
    obtain ⟨limit, y, es, hy, log, midway⟩ := ih
    have step := worldStep_of_step now
    have telling := World.Telling.of_reaches first (reach.trans past.reachesBy.reaches)
    obtain ⟨z, new, hz, log', midway⟩ := midway.step (telling.layers _) hy step goesOn
    refine ⟨step.settings.2.trans limit, z, new ++ es, hz, by rw [log', log, List.append_assoc], ?_⟩
    rwa [limit, ← accepted_append] at midway

/-- What a worker knows of the pool, what it asks and what it tells, wherever a run has led. -/
structure PoolLog (h : List (World × Move)) (w : World) (s : Nat) (x : Worker) : Prop where
  /-- Every update that was told removes what was there and adds what was not. -/
  exact : Exact (poolUpdates (told s w.log))
  nodup : x.memory.known.Nodup
  /-- Whoever has replayed what was told has the ids that are known, unless another update is about
  to be told; between refreshes none is. -/
  replays : (∀ added removed, .notify (.pool added removed) ∉ x.frames) →
    (replay (poolUpdates (told s w.log))).Perm x.memory.known
  settled : x.IsBetween → ∀ added removed, .notify (.pool added removed) ∉ x.frames
  /-- A request that is sent names the ids that are known, and the hash of the header that was known
  when it was made up. -/
  asks : ∀ m v es view, w.step m = some v → v.log = es ++ w.log →
    .sent s (.refresh (.pool view)) ∈ es → view.known = x.memory.known ∧
      ∃ e, h.find? (asksPool s) = some e ∧ view.tail = e.1.chain.header.hash
  /-- Where a refresh ends, it moves nothing any more. -/
  ends : ∀ m v r, refreshEnd? s (w, m) = some r → w.step m = some v → ∃ y,
    v.workers[s]? = some y ∧ y.IsBetween ∧ y.memory.known = x.memory.known ∧
      told s v.log = told s w.log
  /-- Until it ends, it moves nothing unless it accepts changes for the actual tail; then it does
  not fail. -/
  moves : x.IsBetween → ∀ k u, World.Trace (fun v m => refreshEnd? s (v, m) = none) w k u →
    ∃ y es, u.workers[s]? = some y ∧ u.log = es ++ w.log ∧
      (y.memory.known = x.memory.known ∧ poolUpdates (told s es) = [] ∨
        ∃ a, (accepted s w.timeout es).filterMap Accepted.pool? = [a] ∧ a.tailIsActual = true ∧
          ∀ r, refreshEnd? s (u, .run (.worker s)) = some r → r = .ok ())

/-- Where a refresh ends, its worker is between refreshes again and knows what it knew. -/
theorem between_of_refreshEnd {r : Except Failure Unit} (course : x.OnCourse)
    (hx : w.workers[s]? = some x) (ends : refreshEnd? s (w, m) = some r) (now : w.step m = some v) :
    ∃ y, v.workers[s]? = some y ∧ y.IsBetween ∧ y.memory.known = x.memory.known ∧
      told s v.log = told s w.log ∧ pending y.frames = [] := by
  obtain ⟨rfl, rest, code⟩ := frames_of_refreshEnd? ends
  have step := worldStep_of_step now
  have hf : x.frames = .refreshed r :: rest := by rw [← frames_worker hx, code]
  obtain ⟨rfl, -⟩ := rest_of_refreshed course hf
  have none : x.refreshes = 0 := by
    have course := course.course
    rw [hf] at course
    exact Pass.no_refresh course
  have silent : told s v.log = told s w.log := by
    obtain ⟨f, rest, fs, u, code', ran, rfl, -⟩ := step.ran
    rw [code] at code'
    obtain ⟨rfl, rfl⟩ := List.cons.inj code'
    rw [log_setFrames]
    obtain ⟨-, same⟩ | ⟨n, -, other, -⟩ := ran.told (s := s)
    · exact same
    · cases other
  obtain ⟨x', c, chain, fs, own, -, hy⟩ | ⟨which, -⟩ := Pass.ran_own step hx hf rfl
  · refine ⟨_, hy, ⟨?_, ?_⟩, ?_, silent, ?_⟩
    · cases own <;> exact none
    · cases own <;> nofun
    · cases own <;> rfl
    · cases own <;> rfl
  · rcases which with same | same <;> cases same

/-- Whatever replies there are, what a worker tells of the pool is an exact log of what it knows. -/
theorem poolLog_of_trace (first : w₀.Untouched) (run : World.Trace allowed w₀ h w)
    (hx : w.workers[s]? = some x) : PoolLog h w s x := by
  have reach := run.reachesBy.reaches
  have kept := kept_of_reaches first reach hx
  have course := (World.Sound.of_reaches first reach).courses s x hx
  have settled (between : x.IsBetween) (added removed : List Hash) :
      .notify (.pool added removed) ∉ x.frames := fun told =>
    between.code (refreshing_of_notify first reach hx told nofun)
  constructor
  · have exact := kept.exact
    rw [World.announces, poolUpdates_append] at exact
    exact exact.of_append
  · exact kept.nodup
  · intro quiet
    rw [← frames_worker hx] at quiet
    rw [← poolUpdates_announces quiet]
    exact kept.perm
  · exact settled
  · intro m v es view now log sent
    obtain ⟨es', log', taken⟩ := (worldStep_of_step now).log
    obtain rfl : es = es' := List.append_cancel_right (log.symm.trans log')
    obtain ⟨z, r, rest, hz, -, -, ready⟩ := taken _ sent s _ rfl
    rw [hx] at hz
    cases hz
    refine asked_of_trace first run hx ?_
    simp [Worker.tasks, ready]
  · intro m v r ends now
    obtain ⟨y, hy, between, known, same, -⟩ := between_of_refreshEnd course hx ends now
    exact ⟨y, hy, between, known, same⟩
  · intro between k u later
    obtain ⟨-, y, es, hy, log, midway⟩ := midway_of_trace first reach hx between later
    refine ⟨y, es, hy, log, ?_⟩
    have quiet := settled between
    rw [← frames_worker hx] at quiet
    rw [poolUpdates_announces quiet] at midway
    have silent (same : poolUpdates (u.announces s) = poolUpdates (told s w.log)) :
        poolUpdates (told s es) = [] := by
      rw [World.announces, log, told_append, ← List.append_assoc, poolUpdates_append,
        poolUpdates_append] at same
      exact (List.append_eq_nil_iff.mp (List.append_left_eq_self.mp same)).2
    cases midway with
    | asking _ _ same => exact .inl ⟨same.1, silent same.2⟩
    | noting a one code same => exact .inl ⟨same.1, silent same.2⟩
    | noted a one code same =>
      cases actual : a.tailIsActual with
      | false => exact .inl ⟨(same actual).1, silent (same actual).2⟩
      | true =>
        refine .inr ⟨a, one, actual, fun r ends => ?_⟩
        obtain ⟨-, rest, hf⟩ := frames_of_refreshEnd? ends
        rw [← frames_worker hy, hf, ownCode_own rfl] at code
        cases (List.cons.inj code).1
        rfl

end Runs

set_option maxRecDepth 20000 in
/-- A worker is told of a transaction in its third refresh, after a tail that was outdated. -/
theorem poolLog_twice : ∃ h w x id, World.Trace (fun _ _ => True) Node.patient h w ∧
    w.workers[0]? = some x ∧ PoolLog h w 0 x ∧ Node.ends 0 h = [true, true, true] ∧
      poolUpdates (told 0 w.log) = [⟨[id], []⟩] ∧ x.memory.known = [id] := by
  -- The id itself is a digest; that there is one is enough, since the log is exact.
  have found : (Node.patient.checkedTrace (fun _ _ => true) []
      (Node.opening .connectivity 12 4 6 ++ Node.twice 4 World.poolBody 3)).any (fun r =>
        Node.ends 0 r.1 = [true, true, true] && (r.2.workers[0]?).any fun x =>
          x.memory.known.length = 1 && x.frames.isEmpty &&
            (poolUpdates (told 0 r.2.log)).map (fun u => (u.added.length, u.removed.length)) =
              [(1, 0)]) = true := by decide +kernel
  obtain ⟨⟨h, w⟩, run, found⟩ := (Option.any_eq_true ..).mp found
  simp only [Bool.and_eq_true, Option.any_eq_true, decide_eq_true_eq, List.isEmpty_iff,
    List.length_eq_one_iff, List.map_eq_singleton_iff, Prod.mk.injEq, List.length_eq_zero_iff]
    at found
  obtain ⟨ended, x, hx, ⟨⟨id, known⟩, idle⟩, ⟨added, removed⟩, told, ⟨id', rfl⟩, rfl⟩ := found
  have trace : World.Trace (fun _ _ => True) Node.patient h w :=
    .of_checkedTrace (fun _ _ _ => trivial) .nil run
  have log := poolLog_of_trace ⟨1, .standard, true, _, _, rfl⟩ trace hx
  have same : id' = id := by
    have perm := log.replays (by simp [idle])
    rw [told, known] at perm
    exact List.cons.inj (List.perm_singleton.mp perm) |>.1
  exact ⟨h, w, x, id, trace, hx, log, ended, by rw [told, same], known⟩

end RemoteNode.Session
