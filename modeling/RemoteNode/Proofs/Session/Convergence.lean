import RemoteNode.Proofs.Session.Notices

/-! Convergence. After two refreshes that succeed, all that is known is true of a node that does not
change, whatever was known before; no later refresh changes it, and none tells observers anything
but that the connection is lost or there again. -/

namespace RemoteNode.Session

open Observer (Notice)

/-- A refresh of a worker succeeds in a step. -/
def succeeds (s : Nat) (e : World × Move) : Bool :=
  match refreshEnd? s e with
  | some (.ok ()) => true
  | _ => false

/-- The number of refreshes of a worker that have succeeded. -/
def successes (s : Nat) (h : List (World × Move)) : Nat := h.countP (succeeds s)

theorem succeeds_iff {s : Nat} {e : World × Move} :
    succeeds s e = true ↔ refreshEnd? s e = some (.ok ()) := by
  rw [succeeds]
  split
  · rename_i same
    simp [same]
  · rename_i other
    constructor
    · nofun
    · intro same
      exact absurd same (other ·)

/-- The worker is not in the midst of a refresh. -/
structure Worker.IsBetween (x : Worker) : Prop where
  unasked : x.refreshes = 0
  code : ¬RefreshCode (ownCode x.frames)

namespace Node

/-- What is known after a number of refreshes have succeeded. -/
def Learned (n : Node) (w : World) (x : Worker) : Nat → Prop
  | 0 => (Pass.first n).Tracks w.timeout (w.poller x) x
  | 1 => (Pass.second n).Tracks w.timeout (w.poller x) x
  | _ + 2 => ∃ (q : Poller) (h : n.Steady q),
      (Pass.steady h).Tracks w.timeout (w.poller x) x

theorem Steady.of_kept {n : Node} {q p : Poller} (h : n.Steady q) (kept : Kept q p) :
    n.Steady p := by
  refine ⟨kept.chain ▸ h.informed, ⟨?_, ?_, fun zero => ?_⟩, kept.known ▸ h.pool⟩
  · rw [kept.chain, h.placed.tail]
  · rw [kept.notDue, h.placed.notDue]
  · rw [kept.chain] at zero ⊢
    exact h.placed.header zero

section Runs
variable {n : Node} {w₀ w v u : World} {m : Move} {s : Nat} {x y : Worker} {q : Poller}
  {h : List (World × Move)} {e : World × Move}

/-- Wherever a run leads, workers are on their course and remember every id once. -/
theorem onCourse_of_reaches (first : w₀.Untouched) (reach : w₀.Reaches w)
    (hx : w.workers[s]? = some x) : x.OnCourse ∧ x.memory.known.Nodup := by
  refine ⟨(World.Sound.of_reaches first reach).courses s x hx, ?_⟩
  exact reach.keepsWorker first hx (fun _ => List.nodup_nil) fun _ _ _ _ _ _ nodup worker =>
    Pass.nodup_step worker nodup

/-- What a refresh that succeeds leaves behind. -/
theorem of_success {π : Pass n} (hx : w.workers[s]? = some x) (onCourse : x.OnCourse)
    (tracks : π.Tracks w.timeout (w.poller x) x) (success : succeeds s (w, m) = true)
    (now : w.step m = some v) : π.after (w.poller x) ∧ ∃ y, v.workers[s]? = some y ∧
      v.poller y = w.poller x ∧ y.IsCalm n ∧
        ∀ π' : Pass n, π'.base (v.poller y) → π'.Tracks v.timeout (v.poller y) y := by
  obtain ⟨rfl, rest, code⟩ := frames_of_refreshEnd? (succeeds_iff.mp success)
  have hf : x.frames = .refreshed (.ok ()) :: rest := by rw [← frames_worker hx, code]
  obtain ⟨rfl, busy⟩ := rest_of_refreshed onCourse hf
  have known := tracks.code
  rw [hf] at known
  have none : x.refreshes = 0 := by
    have course := onCourse.course
    rw [hf] at course
    exact Pass.no_refresh course
  cases known (.refreshed _) with
  | refreshed met after =>
    refine ⟨after, ?_⟩
    obtain ⟨x', c, chain, fs, own, same, hy⟩ | ⟨which, -⟩ :=
      Pass.ran_own (worldStep_of_step now) hx hf rfl
    · refine ⟨_, hy, ?_, ?_, fun π' base => .of_code ?_ base ?_⟩
      · rw [World.poller, World.poller, same]
        cases own <;> rfl
      · cases own <;> exact ⟨met.connected, by simp⟩
      · cases own <;> exact none
      · cases own <;> exact fun code => by cases code
    · rcases which with same | same <;> cases same

/-- What is known after a run in which only the node answers. -/
theorem learned_of_trace (first : w₀.Untouched) (reach : w₀.Reaches w)
    (hx : w.workers[s]? = some x) (between : x.IsBetween)
    (run : World.Trace (n.Faithful s) w h u) :
    ∃ y, u.workers[s]? = some y ∧ n.Learned u y (successes s h) := by
  induction run with
  | nil => exact ⟨x, hx, .of_code between.unasked trivial fun code => absurd code between.code⟩
  | @step h v u m past may now ih =>
    obtain ⟨y, hy, learned⟩ := ih
    obtain ⟨onCourse, nodup⟩ := onCourse_of_reaches first (reach.trans past.reachesBy.reaches) hy
    cases success : succeeds s (v, m) with
    | false =>
      rw [successes, List.countP_cons_of_neg (by simp [success])]
      change n.Learned v y (h.countP (succeeds s)) at learned
      match h.countP (succeeds s), learned with
      | 0, tracks | 1, tracks => exact tracks.step hy onCourse nodup may now
      | _ + 2, ⟨q, hq, tracks⟩ =>
        obtain ⟨z, hz, tracks⟩ := tracks.step hy onCourse nodup may now
        exact ⟨z, hz, q, hq, tracks⟩
    | true =>
      rw [successes, List.countP_cons_of_pos success]
      change n.Learned v y (h.countP (succeeds s)) at learned
      match h.countP (succeeds s), learned with
      | 0, tracks =>
        obtain ⟨after, z, hz, same, -, onwards⟩ := of_success hy onCourse tracks success now
        exact ⟨z, hz, onwards (.second n) (same ▸ after)⟩
      | 1, tracks =>
        obtain ⟨after, z, hz, same, -, onwards⟩ := of_success hy onCourse tracks success now
        have steady : n.Steady (u.poller z) := same ▸ after
        exact ⟨z, hz, _, steady, onwards (.steady steady) ⟨rfl, rfl, rfl⟩⟩
      | _ + 2, ⟨q, hq, tracks⟩ =>
        obtain ⟨after, z, hz, same, -, onwards⟩ := of_success hy onCourse tracks success now
        exact ⟨z, hz, q, hq, onwards (.steady hq) (same ▸ after)⟩

/-- After two refreshes have succeeded, the second in the last step, all that is known is true of
the node, and the worker is calm. -/
theorem steady_of_success (first : w₀.Untouched) (reach : w₀.Reaches w)
    (hx : w.workers[s]? = some x) (between : x.IsBetween)
    (run : World.Trace (n.Faithful s) w (e :: h) u) (success : succeeds s e = true)
    (before : 0 < successes s h) :
    ∃ y, u.workers[s]? = some y ∧ n.Steady (u.poller y) ∧ y.IsCalm n ∧
      ∀ π : Pass n, π.base (u.poller y) → π.Tracks u.timeout (u.poller y) y := by
  cases run with
  | @step h v u m past may now =>
    obtain ⟨y, hy, learned⟩ := learned_of_trace first reach hx between past
    obtain ⟨onCourse, -⟩ := onCourse_of_reaches first (reach.trans past.reachesBy.reaches) hy
    generalize successes s h = k at before learned
    match k, before, learned with
    | 1, _, tracks =>
      obtain ⟨after, z, hz, same, calm, onwards⟩ := of_success hy onCourse tracks success now
      have steady : n.Steady (u.poller z) := same ▸ after
      exact ⟨z, hz, steady, calm, onwards⟩
    | _ + 2, _, ⟨q, hq, tracks⟩ =>
      obtain ⟨after, z, hz, same, calm, onwards⟩ := of_success hy onCourse tracks success now
      have steady : n.Steady (v.poller y) := hq.of_kept after
      exact ⟨z, hz, same ▸ steady, calm, onwards⟩

/-- Once all that is known is true of the node, it stays what it is, and observers are told at most
of the connectivity. -/
theorem steady_of_trace (first : w₀.Untouched) (reach : w₀.Reaches w) (hq : n.Steady q)
    (hx : w.workers[s]? = some x) (tracks : (Pass.steady hq).Tracks w.timeout (w.poller x) x)
    (tells : x.TellsConnectivity) (run : World.Trace (n.Faithful s) w h u) :
    ∃ y, u.workers[s]? = some y ∧ (Pass.steady hq).Tracks u.timeout (u.poller y) y ∧
      y.TellsConnectivity ∧ ∃ es, u.log = es ++ w.log ∧
        ∀ e ∈ es, ∀ a, e.notice? s = some a → ∃ b, a = .connected b := by
  induction run with
  | nil => exact ⟨x, hx, tracks, tells, [], rfl, by simp⟩
  | @step h v u m past may now ih =>
    obtain ⟨y, hy, tracks, tells, es, log, told⟩ := ih
    obtain ⟨onCourse, nodup⟩ := onCourse_of_reaches first (reach.trans past.reachesBy.reaches) hy
    have step := worldStep_of_step now
    obtain ⟨z, hz, goesOn⟩ := tracks.step hy onCourse nodup may now
    obtain ⟨new, log', told'⟩ := step.notices (s := s)
    refine ⟨z, hz, goesOn, tellsConnectivity_step tracks onCourse hy hz step tells, new ++ es,
      by rw [log', log, List.append_assoc], fun e inLog a notice => ?_⟩
    rcases List.mem_append.mp inLog with inNew | inOld
    · exact tells a (frames_worker hy ▸ told' e inNew a notice)
    · exact told e inOld a notice

/-- Until the next refresh has ended, a calm worker tells nothing, or that refresh fails. -/
theorem calm_of_trace (first : w₀.Untouched) (reach : w₀.Reaches w) (hq : n.Steady q)
    (hx : w.workers[s]? = some x) (tracks : (Pass.steady hq).Tracks w.timeout (w.poller x) x)
    (calm : x.IsCalm n)
    (run : World.Trace (fun w m => n.Faithful s w m ∧ refreshEnd? s (w, m) = none) w h u) :
    ∃ y, u.workers[s]? = some y ∧ (Pass.steady hq).Tracks u.timeout (u.poller y) y ∧
      (y.IsDoomed ∨ y.IsCalm n ∧ ∃ es, u.log = es ++ w.log ∧ ∀ e ∈ es, e.notice? s = none) := by
  induction run with
  | nil => exact ⟨x, hx, tracks, .inr ⟨calm, [], rfl, by simp⟩⟩
  | @step h v u m past may now ih =>
    obtain ⟨y, hy, tracks, state⟩ := ih
    obtain ⟨onCourse, nodup⟩ := onCourse_of_reaches first (reach.trans past.reachesBy.reaches) hy
    have step := worldStep_of_step now
    obtain ⟨z, hz, goesOn⟩ := tracks.step hy onCourse nodup may.1 now
    refine ⟨z, hz, goesOn, ?_⟩
    obtain ⟨z', hz', worker⟩ := step.workerStep hy
    rw [hz] at hz'
    cases hz'
    rcases state with doomed | ⟨calm, es, log, silent⟩
    · exact .inl (doomed_step onCourse hy worker may.2 doomed)
    · rcases calm_step tracks onCourse worker calm with calm' | doomed
      · obtain ⟨new, log', told⟩ := step.notices (s := s)
        refine .inr ⟨calm', new ++ es, by rw [log', log, List.append_assoc], fun e inLog => ?_⟩
        rcases List.mem_append.mp inLog with inNew | inOld
        · cases notice : e.notice? s with
          | none => rfl
          | some a => exact absurd (frames_worker hy ▸ told e inNew a notice) (calm.silent a)
        · exact silent e inOld
      · exact .inl doomed

end Runs

/-- Where refreshes have converged to a node. -/
structure Converged (n : Node) (s : Nat) (w : World) : Prop where
  /-- The top header is the node's, the ids of its pool are known, and so is what it says of
  itself. -/
  known : ∃ x, w.workers[s]? = some x ∧ w.chain.header.hash = n.header.hash ∧
    (∀ id, id ∈ x.memory.known ↔ id ∈ n.ids) ∧ w.chain.peerCount = n.peerCount ∧
      w.chain.minimalFee = n.minFee
  /-- Whatever follows, what is known of the chain and of the pool stays what it is. -/
  stays : ∀ h u, World.Trace (n.Faithful s) w h u → u.chain = w.chain ∧
    ∃ x y, w.workers[s]? = some x ∧ u.workers[s]? = some y ∧ y.memory.known = x.memory.known
  /-- Whatever follows, the worker announces its connectivity at most. -/
  tells : ∀ h u, World.Trace (n.Faithful s) w h u → ∃ es, u.log = es ++ w.log ∧
    ∀ e ∈ es, ∀ a, e.notice? s = some a → ∃ b, a = .connected b
  /-- From one refresh that has succeeded until the next succeeds, it announces nothing. -/
  silent : ∀ h u k v, World.Trace (n.Faithful s) w h u → (∀ e ∈ h.head?, succeeds s e = true) →
    World.Trace (fun w m => n.Faithful s w m ∧ refreshEnd? s (w, m) = none) u k v →
    succeeds s (v, .run (.worker s)) = true →
    ∃ es, v.log = es ++ u.log ∧ ∀ e ∈ es, e.notice? s = none

/-- Two refreshes that succeed against a node that does not change converge to it. -/
theorem converged_of_trace {n : Node} {w₀ w u : World} {s : Nat} {x : Worker}
    {h : List (World × Move)} {e : World × Move} (first : w₀.Untouched) (reach : w₀.Reaches w)
    (hx : w.workers[s]? = some x) (between : x.IsBetween)
    (run : World.Trace (n.Faithful s) w (e :: h) u) (before : 0 < successes s h)
    (success : succeeds s e = true) : n.Converged s u := by
  obtain ⟨y, hy, steady, calm, onwards⟩ :=
    steady_of_success first reach hx between run success before
  have reach : w₀.Reaches u := reach.trans run.reachesBy.reaches
  have tracks := onwards (.steady steady) ⟨rfl, rfl, rfl⟩
  have tells : y.TellsConnectivity := fun a told => absurd told (calm.silent a)
  constructor
  · exact ⟨y, hy, steady.placed.tail, steady.pool, steady.informed.peers, steady.informed.fee⟩
  · intro h v later
    obtain ⟨z, hz, tracks, -⟩ := steady_of_trace first reach steady hy tracks tells later
    exact ⟨tracks.base.chain, y, z, hy, hz, tracks.base.known⟩
  · intro h v later
    obtain ⟨z, hz, -, -, told⟩ := steady_of_trace first reach steady hy tracks tells later
    exact told
  · intro h v k t later ended onwards' success'
    -- the worker is calm where a refresh has just succeeded
    have calm' : ∃ z, v.workers[s]? = some z ∧
        (Pass.steady steady).Tracks v.timeout (v.poller z) z ∧ z.IsCalm n := by
      cases later with
      | nil => exact ⟨y, hy, tracks, calm⟩
      | @step h a v m past may now =>
        obtain ⟨z, hz, tracks, -⟩ := steady_of_trace first reach steady hy tracks tells past
        obtain ⟨onCourse, -⟩ :=
          onCourse_of_reaches first (reach.trans past.reachesBy.reaches) hz
        obtain ⟨after, z', hz', same, calm, onwards⟩ :=
          of_success hz onCourse tracks (ended _ rfl) now
        exact ⟨z', hz', onwards _ (same ▸ after), calm⟩
    obtain ⟨z, hz, tracks', calm'⟩ := calm'
    have reach' := reach.trans later.reachesBy.reaches
    obtain ⟨z', hz', -, state⟩ := calm_of_trace first reach' steady hz tracks' calm' onwards'
    rcases state with doomed | ⟨-, told⟩
    · exfalso
      obtain ⟨-, rest, code⟩ := frames_of_refreshEnd? (succeeds_iff.mp success')
      obtain ⟨onCourse, -⟩ :=
        onCourse_of_reaches first (reach'.trans onwards'.reachesBy.reaches) hz'
      exact not_doomed_of_refreshed onCourse (by rw [← frames_worker hz', code]) doomed
    · exact told

/-! ### Runs against a node -/

/-- An answer about the pool, checked one transaction after another. -/
theorem answers_pool_iff {n : Node} {view : Command.PoolView} {c : Command.PoolChanges} :
    (c.tailIsActual = decide (view.tail = n.header.hash) ∧
      (¬view.tail = n.header.hash ∨
        ((∀ tx ∈ c.added, tx ∈ n.pool ∧ tx.id ∉ view.known) ∧
          ∀ tx ∈ n.pool, tx.id ∈ view.known ∨ tx ∈ c.added) ∧
        (∀ id ∈ c.deleted, id ∈ view.known ∧ id ∉ n.ids) ∧
          ∀ id ∈ view.known, id ∈ n.ids ∨ id ∈ c.deleted)) ↔ n.Answers (.pool view) c := by
  simp only [or_iff_not_imp_left, not_not]
  refine and_congr_right fun _ => imp_congr_right fun _ => and_congr ?_ ?_
  · exact ⟨fun h tx => ⟨h.1 tx, fun k => h.2 tx k.1 k.2⟩,
      fun h => ⟨fun tx => (h tx).mp, fun tx k l => (h tx).mpr ⟨k, l⟩⟩⟩
  · exact ⟨fun h id => ⟨h.1 id, fun k => h.2 id k.1 k.2⟩,
      fun h => ⟨fun id => (h id).mp, fun id k l => (h id).mpr ⟨k, l⟩⟩⟩

instance decidableAnswers (n : Node) :
    (g : Stage) → (c : g.command.Content) → Decidable (n.Answers g c)
  | .info, i => inferInstanceAs (Decidable (i.height = n.nodeHeight ∧ highest i = n.knownHeight ∧
      i.peerCount = n.peerCount ∧ i.minFee = n.minFee))
  | .header, (r : Chain.HeaderReport) => inferInstanceAs (Decidable (r.header = n.header))
  | .pool _, (_ : Command.PoolChanges) => decidable_of_iff _ answers_pool_iff

/-- Tells whether an answer that comes for a refresh is the node's. -/
def isHonest (n : Node) (s : Nat) (w : World) : Move → Bool
  | .reply r i (.arrival a) =>
    r != s || (w.workers[s]?).all fun x => (x.waiting[i]?).all fun
      | .refresh g =>
        match answer g.command w.timeout a with
        | .ok c => n.Answers g c
        | .error _ => true
      | .job _ _ => true
  | _ => true

/-- Tells whether the answers are the node's and nobody but the worker on its own course changes
what is known of the chain. -/
def isFaithful (n : Node) (s : Nat) (w : World) (m : Move) : Bool :=
  n.isHonest s w m && (w.step m).all fun v => v.chain = w.chain || match m with
    | .run (.worker r) => r = s && (w.frames (.worker s)).head?.any Frame.isOwn
    | _ => false

theorem honest_of_isHonest {n : Node} {s : Nat} {w : World} {m : Move}
    (h : n.isHonest s w m = true) : n.Honest s w m := by
  rintro i a x g c rfl hx ht ha
  simpa [isHonest, hx, ht, ha] using h

theorem faithful_of_isFaithful {n : Node} {s : Nat} {w : World} {m : Move}
    (h : n.isFaithful s w m = true) : n.Faithful s w m := by
  unfold isFaithful at h
  rw [Bool.and_eq_true] at h
  refine ⟨honest_of_isHonest h.1, fun v now changed => ?_⟩
  have alone := h.2
  simp only [now, Option.all_some, Bool.or_eq_true, decide_eq_true_eq, changed, false_or] at alone
  split at alone
  · simp only [Bool.and_eq_true, decide_eq_true_eq, Option.any_eq_true] at alone
    obtain ⟨rfl, f, head, own⟩ := alone
    obtain ⟨rest, code⟩ := List.head?_eq_some_iff.mp head
    exact ⟨f, rest, rfl, code, own⟩
  · cases alone

/-- How the refreshes of a worker ended that have ended, latest first. -/
def ends (s : Nat) (h : List (World × Move)) : List Bool :=
  (h.filterMap (refreshEnd? s)).map Except.toBool

/-- The node of the answers that a run is given, with some pool. -/
def ofPool (pool : List Chain.Transaction) : Node where
  nodeHeight := 5
  knownHeight := 5
  peerCount := 8
  minFee := 0
  header := match answer .lastHeader .standard (.inTime ⟨200, .inTime World.headerBody⟩) with
    | .ok r => r.header
    | .error _ => default
  pool := pool

/-- The header with another hash: the digit 2 stands nowhere else in it. -/
def otherBody : List UInt8 := World.headerBody.map fun b => if b = 50 then 51 else b

/-- Nothing was added to the pool or deleted; the tail is actual, or it is not. -/
def nothingBody (actual : UInt8) : List UInt8 :=
  [actual, 0, 0, 0, 0, 0, 0, 0, 0, 0, 0, 0, 0, 0, 0, 0, 0, 2, 0, 0, 0, 0, 0, 0, 0, 79, 75]

/-- A request of the first worker gets its reply, and so much code runs for it. -/
def replied (r : Reply) (code : Nat) : List Move :=
  [.turn 0 .poll, .reply 0 0 r, .turn 0 .poll] ++ List.replicate code (.run (.worker 0))

/-- An observer is registered and a caller initializes; the first refresh meets another header. -/
def opening (side : Observer.Side) (info header pool : Nat) : List Move :=
  .call 0 (.register side 0) :: List.replicate 3 (.run (.caller 0)) ++
    .call 0 (.init "first" []) :: List.replicate 3 (.run (.caller 0)) ++
      .run (.worker 0) :: replied (World.answered World.infoBody) info ++
        replied (World.answered otherBody) header ++ replied (World.answered (nothingBody 1)) pool

/-- Two refreshes: the first finds the tail outdated, the second asks for the header. -/
def twice (header : Nat) (body : List UInt8) (pool : Nat) : List Move :=
  .turn 0 .wake :: replied (World.answered World.infoBody) 7 ++
    replied (World.answered (nothingBody 0)) 2 ++
      .turn 0 .wake :: replied (World.answered World.infoBody) 6 ++
        replied (World.answered World.headerBody) header ++ replied (World.answered body) pool

/-- A world with one caller and an observer that does nothing. -/
def patient : World := { World.initial 1 .standard with kept := [0] }

/-- A world with one caller and an observer that shuts down when it is told of the pool. -/
def hasty : World := { patient with
  reaction := fun _ n => match n with
    | .pool _ _ => [.shutdown]
    | _ => [] }

set_option maxRecDepth 20000 in
/-- A worker that has met another header converges to a node with a transaction in its pool. -/
theorem converged_twice : ∃ w u h, patient.Reaches w ∧
    World.Trace ((ofPool [[7]]).Faithful 0) w h u ∧ ends 0 h = [true, true] ∧
      (ofPool [[7]]).Converged 0 u := by
  have found : (patient.steps (opening .connectivity 12 4 6)).any (fun w =>
      (w.workers[0]?).any (fun x => x.refreshes = 0 && x.frames.isEmpty) &&
        (w.checkedTrace ((ofPool [[7]]).isFaithful 0) [] (twice 4 World.poolBody 3)).any
        fun (h, _) => ends 0 h = [true, true] && h.head?.any (succeeds 0) &&
          0 < successes 0 h.tail) = true := by decide +kernel
  obtain ⟨w, hw, found⟩ := (Option.any_eq_true ..).mp found
  simp only [Bool.and_eq_true, Option.any_eq_true, decide_eq_true_eq, List.isEmpty_iff] at found
  obtain ⟨⟨x, hx, unasked, idle⟩, ⟨h, u⟩, run, ⟨ended, e, head, success⟩, before⟩ := found
  obtain ⟨h, rfl⟩ := List.head?_eq_some_iff.mp head
  have reach := World.reaches_steps hw
  have trace := World.Trace.of_checkedTrace (fun _ _ => faithful_of_isFaithful) .nil run
  have between : x.IsBetween := ⟨unasked, by rw [idle]; nofun⟩
  exact ⟨w, u, e :: h, reach, trace, ended,
    converged_of_trace ⟨1, .standard, true, _, _, rfl⟩ reach hx between trace before success⟩

/-- What an observer is told. -/
def toldTo (o : Observer.Id) : Entry → Option Notice
  | .notified p a => if p = o then some a else none
  | _ => none

set_option maxRecDepth 20000 in
/-- After two refreshes have succeeded against a node, another one is lost; the next succeeds, and
the observer is told of the connectivity. -/
theorem patient_told : (patient.steps (opening .connectivity 12 4 6)).any (fun w =>
    (w.checkedTrace ((ofPool []).isFaithful 0) [] (twice 4 (nothingBody 1) 2)).any fun (h, u) =>
      ends 0 h = [true, true] &&
      (u.checkedTrace ((ofPool []).isFaithful 0) []
        (.turn 0 .wake :: replied (.arrival .late) 6)).any fun (k, v) => ends 0 k = [false] &&
        (v.checkedTrace ((ofPool []).isFaithful 0) []
          (.turn 0 .wake :: replied (World.answered World.infoBody) 11 ++
            replied (World.answered (nothingBody 1)) 2)).any fun (l, z) => ends 0 l = [true] &&
          z.log.filterMap (toldTo 0) = .connected true :: v.log.filterMap (toldTo 0)) = true := by
  decide +kernel

set_option maxRecDepth 20000 in
/-- An observer shuts down where the second of two refreshes tells it of the pool. -/
theorem hasty_forgets : (hasty.steps (opening .node 15 10 6)).any (fun w =>
    (w.checkedTrace ((ofPool [[7]]).isHonest 0) [] (twice 10 World.poolBody 14)).any fun (h, u) =>
      ends 0 h = [true, true] && u.chain.header.hash ≠ (ofPool [[7]]).header.hash) = true := by
  decide +kernel

/-- Two refreshes that succeed one right after the other against a node that does not change are not
enough: later an observer may be told of the connectivity in a refresh that succeeds, and if an
observer shuts down in the second refresh, the header is not the node's. -/
theorem exists_not_converged :
    (∃ (n : Node) (w₀ w : World) (h k l : _) (u v z : World), w₀.Untouched ∧ w₀.Reaches w ∧
      World.Trace (n.Faithful 0) w h u ∧ ends 0 h = [true, true] ∧
      World.Trace (n.Faithful 0) u k v ∧ ends 0 k = [false] ∧
      World.Trace (n.Faithful 0) v l z ∧ ends 0 l = [true] ∧
      z.log.filterMap (toldTo 0) = .connected true :: v.log.filterMap (toldTo 0)) ∧
    ∃ (n : Node) (w₀ w : World) (h : _) (u : World), w₀.Untouched ∧ w₀.Reaches w ∧
      World.Trace (n.Honest 0) w h u ∧ ends 0 h = [true, true] ∧
      u.chain.header.hash ≠ n.header.hash := by
  constructor
  · obtain ⟨w, hw, found⟩ := (Option.any_eq_true ..).mp patient_told
    simp only [Bool.and_eq_true, Option.any_eq_true, decide_eq_true_eq] at found
    obtain ⟨⟨h, u⟩, two, twoEnds, ⟨k, v⟩, lost, lostEnds, ⟨l, z⟩, last, lastEnds, told⟩ := found
    have run {w : World} {ms : List Move} {p : List (World × Move) × World}
        (h : w.checkedTrace ((ofPool []).isFaithful 0) [] ms = some p) :
        World.Trace ((ofPool []).Faithful 0) w p.1 p.2 :=
      .of_checkedTrace (fun _ _ => faithful_of_isFaithful) .nil h
    exact ⟨ofPool [], patient, w, h, k, l, u, v, z, ⟨1, .standard, true, _, _, rfl⟩,
      World.reaches_steps hw, run two, twoEnds, run lost, lostEnds, run last, lastEnds, told⟩
  · obtain ⟨w, hw, found⟩ := (Option.any_eq_true ..).mp hasty_forgets
    simp only [Bool.and_eq_true, Option.any_eq_true, decide_eq_true_eq] at found
    obtain ⟨⟨h, u⟩, two, twoEnds, other⟩ := found
    exact ⟨ofPool [[7]], hasty, w, h, u, ⟨1, .standard, true, _, _, rfl⟩, World.reaches_steps hw,
      .of_checkedTrace (fun _ _ => honest_of_isHonest) .nil two, twoEnds, other⟩

end Node

end RemoteNode.Session
