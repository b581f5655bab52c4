import RemoteNode.Proofs.Session.Outcomes
import RemoteNode.Proofs.Session.Polling

/-! What a worker knows while it refreshes. As long as the node alone answers its refreshes and
nobody else writes down what is known of the chain, a worker is somewhere on a pass: the code it has
still to run and the requests it has made fit what is known. -/

namespace RemoteNode.Session

/-- What a refresh of a worker reads and writes. -/
def World.poller (w : World) (x : Worker) : Poller := ⟨w.chain, x.memory⟩

/-- Every answer to a refresh of a worker is the node's. -/
def Node.Honest (n : Node) (s : Nat) (w : World) (m : Move) : Prop :=
  ∀ i a x g c, m = .reply s i (.arrival a) → w.workers[s]? = some x →
    x.waiting[i]? = some (.refresh g) → answer g.command w.timeout a = .ok c → n.Answers g c

/-- Every answer to a refresh of a worker is the node's, and nobody but the worker on its own course
changes what is known of the chain. A round trip may still fail. -/
structure Node.Faithful (n : Node) (s : Nat) (w : World) (m : Move) : Prop where
  honest : n.Honest s w m
  alone : ∀ v, w.step m = some v → v.chain ≠ w.chain → ∃ f rest, m = .run (.worker s) ∧
    w.frames (.worker s) = f :: rest ∧ f.isOwn = true

/-! ### Who writes down what is known of the chain -/

section Writers
variable {w u v : World} {m : Move} {t : Thread} {s : Nat} {f : Frame} {fs : List Frame}

theorem chain_setFrames (u : World) (t : Thread) (fs : List Frame) :
    (u.setFrames t fs).chain = u.chain := by
  cases t <;> rfl

/-- Only a shutdown, a failure and a refresh change what is known of the chain. -/
theorem FrameStep.chain (step : FrameStep w t f u fs) : u.chain = w.chain ∨ f = .forgetChain ∨
    ∃ s x, t = .worker s ∧ w.workers[s]? = some x ∧ f.writes = true := by
  cases step with
  | forgetChain => exact .inr (.inl rfl)
  | own f s x x' c chain fs isHere hx own =>
    cases own with
    | noteFee | notePeers | noteKnown | noteHeight | noteHeader =>
      exact .inr (.inr ⟨s, x, isHere, hx, rfl⟩)
    | _ => exact .inl rfl
  | register | unregister | unregisterAwait | notifyNobody | notify | delivered =>
    exact .inl (by simp [World.record, World.setRegistry_eq, World.setDelivery_eq])
  | _ => exact .inl rfl

/-- As long as the handle of a worker is held, it alone changes what is known of the chain: on its
own course, or because its first refresh has failed. -/
theorem alone_of_held (hs : w.Sound) (owned : w.Owned) (held : w.connection.worker = some s)
    (step : WorldStep w m v) (changed : v.chain ≠ w.chain) : ∃ f rest, m = .run (.worker s) ∧
      w.frames (.worker s) = f :: rest ∧
        (f.isOwn = true ∨ f = .forgetChain ∧ .markFailed ∈ rest) := by
  obtain ⟨running, calm, -⟩ := owned.held s held
  have mine {r : Nat} {x : Worker} (hx : w.workers[r]? = some x) (active : x.IsActive) : r = s := by
    have := owned.active r x hx active
    rw [running] at this
    exact (Option.some.inj this).symm
  cases m with
  | run t =>
    obtain ⟨f, rest, fs, u, code, ran, rfl, -⟩ := step.ran
    rw [chain_setFrames] at changed
    obtain same | rfl | ⟨r, x, rfl, hx, writes⟩ := ran.chain
    · exact absurd same changed
    · obtain finish | ⟨r, x, gs, rfl, hx, rfl⟩ := hs.forgetting_cases code
      · exact absurd (by rw [code]; exact List.mem_cons_of_mem _ finish) (owned.calm calm t)
      · have failed : .markFailed ∈ ownCode x.frames := by
          rw [mem_ownCode rfl, ← frames_worker hx, code]
          exact List.mem_cons_of_mem _ (List.mem_cons_self ..)
        obtain rfl := mine hx (isActive_of_code (hs.courses r x hx) failed (.inr (.inr rfl)))
        exact ⟨_, _, rfl, code, .inr ⟨rfl, List.mem_cons_self ..⟩⟩
    · have own : f.isOwn = true := by cases f <;> first | rfl | cases writes
      have inCode : f ∈ ownCode x.frames := by
        rw [mem_ownCode own, ← frames_worker hx, code]
        exact List.mem_cons_self ..
      obtain rfl := mine hx (isActive_of_code (hs.courses r x hx) inCode (.inl writes))
      exact ⟨f, rest, rfl, code, .inl own⟩
  | call | release | reply | turn => cases step; exact absurd rfl changed

end Writers

namespace Pass
variable {n : Node}

/-- What is known while the code of a refresh is left. -/
inductive Code (π : Pass n) (p : Poller) : List Frame → Prop
  | noteFee (i : Command.NodeInfo) (honest : n.Answers .info i) (base : π.base p) :
    Code π p [.noteFee i, .notePeers i, .noteKnown i, .noteHeight i]
  | notePeers (i : Command.NodeInfo) (honest : n.Answers .info i) (base : π.base p)
    (fee : p.chain.minimalFee = n.minFee) : Code π p [.notePeers i, .noteKnown i, .noteHeight i]
  | noteKnown (i : Command.NodeInfo) (honest : n.Answers .info i) (base : π.base p)
    (fee : p.chain.minimalFee = n.minFee) (peers : p.chain.peerCount = n.peerCount) :
    Code π p [.noteKnown i, .noteHeight i]
  | noteHeight (i : Command.NodeInfo) (honest : n.Answers .info i) (base : π.base p)
    (fee : p.chain.minimalFee = n.minFee) (peers : p.chain.peerCount = n.peerCount)
    (known : n.knownHeight ≤ p.chain.knownHeight) : Code π p [.noteHeight i]
  | setConnected (due : Bool) (informed : n.Informed p.chain) (base : π.base p)
    (heading : due = true → π.heading p) :
    Code π p [.setConnected n.isConnected, .askHeader due]
  | askHeader (due : Bool) (met : n.Met p) (base : π.base p) (heading : due = true → π.heading p) :
    Code π p [.askHeader due]
  | noteHeader (met : n.Met p) (heading : π.heading p) : Code π p [.noteHeader n.header, .askPool]
  | askPool (met : n.Met p) (pooling : π.pooling p) : Code π p [.askPool]
  | notePool (a : Command.PoolChanges) (met : n.Met p) (pooling : π.pooling p)
    (honest : n.Answers (.pool p.view) a) : Code π p [.notePool a]
  | lost (e : Failure) : Code π p [.setConnected false, .refreshed (.error e)]
  | failed (e : Failure) : Code π p [.refreshed (.error e)]
  | refreshed (met : n.Met p) (after : π.after p) : Code π p [.refreshed (.ok ())]

/-- What is known while a request of a refresh is on its way. -/
def Asks (π : Pass n) (p : Poller) : Stage → Prop
  | .info => π.base p
  | .header => n.Met p ∧ π.heading p
  | .pool view => n.Met p ∧ π.pooling p ∧ view = p.view

/-- A worker is somewhere on a pass. -/
structure Tracks (π : Pass n) (limit : Exchange.Timeout) (p : Poller) (x : Worker) : Prop where
  base : π.base p
  ready : ∀ g r, (.refresh g, r) ∈ x.runnable → π.Asks p g ∧ ∀ a c, r = .answered (.arrival a) →
    answer g.command limit a = .ok c → n.Answers g c
  waits : ∀ g, .refresh g ∈ x.waiting → π.Asks p g
  code : RefreshCode (ownCode x.frames) → π.Code p (ownCode x.frames)

section Steps
variable {π : Pass n} {limit : Exchange.Timeout} {w v : World} {m : Move} {s : Nat}
  {x y x' : Worker} {f : Frame} {fs rest : List Frame} {c : Connection} {chain : ChainView}
  {p : Poller}

/-- Where no refresh is under way there is none among the tasks. -/
theorem no_task (none : x.refreshes = 0) :
    (∀ g r, (.refresh g, r) ∉ x.runnable) ∧ ∀ g, .refresh g ∉ x.waiting := by
  rw [Worker.refreshes, List.countP_eq_zero] at none
  constructor
  · intro g r h
    exact none (.refresh g) (List.mem_append_left _ (List.mem_map.mpr ⟨_, h, rfl⟩)) rfl
  · intro g h
    exact none (.refresh g) (List.mem_append_right _ h) rfl

/-- Code of its own is left only where no refresh is under way. -/
theorem no_refresh {p : Phase} {q : Refreshing} {k : Nat} {o : List Frame}
    (h : Course p q k (f :: o)) : k = 0 := by
  cases h <;> rfl

/-- So nothing is asked for a refresh while a worker has code of its own to run. -/
theorem unasked (h : x.OnCourse) (code : x.frames = f :: rest) (own : f.isOwn = true) (g : Stage) :
    .refresh g ∉ x.tasks := by
  have course := h.course
  rw [code, ownCode_own own] at course
  exact fun there => List.countP_eq_zero.mp (no_refresh course) _ there rfl

/-- Where no refresh is under way, only the code is left to be looked at. -/
theorem Tracks.of_code (none : x.refreshes = 0) (base : π.base p)
    (code : RefreshCode (ownCode x.frames) → π.Code p (ownCode x.frames)) :
    π.Tracks limit p x :=
  ⟨base, fun g r h => absurd h ((no_task none).1 g r), fun g h => absurd h ((no_task none).2 g),
    code⟩

/-- A worker that goes on with code of its own and has asked for nothing is on the pass if the code
fits. -/
theorem Tracks.of_own {o g : List Frame} (none : x.refreshes = 0) (left : ownCode rest = o)
    (now : ownCode fs ++ o = g) (base : π.base p) (code : RefreshCode g → π.Code p g) :
    π.Tracks limit p { x with frames := fs ++ rest } := by
  subst left
  refine .of_code none base ?_
  change RefreshCode (ownCode (fs ++ rest)) → π.Code p (ownCode (fs ++ rest))
  rwa [ownCode_append, now]

/-- A request that is made in the midst of its own code is the only one. -/
theorem Tracks.of_asking {o : List Frame} (none : x.refreshes = 0) (left : ownCode rest = o)
    (between : ¬RefreshCode o) (base : π.base p) {g : Stage} (asks : π.Asks p g) :
    π.Tracks limit p
      { x with runnable := x.runnable ++ [(.refresh g, .send)], frames := [] ++ rest } := by
  subst left
  refine ⟨base, fun g' r h => ?_, fun g' h => absurd h ((no_task none).2 g'),
    fun h => absurd h between⟩
  rcases List.mem_append.mp h with old | new
  · exact absurd old ((no_task none).1 g' r)
  · rw [List.mem_singleton] at new
    cases new
    exact ⟨asks, nofun⟩

/-- In a refresh, what a worker does on its own course brings it on. -/
theorem Tracks.own_refresh (code : π.Code (w.poller x) (f :: ownCode rest)) (none : x.refreshes = 0)
    (base : π.base (w.poller x)) (nodup : x.memory.known.Nodup)
    (step : OwnStep w x f x' c chain fs) :
    π.Tracks limit ⟨chain, x'.memory⟩ { x' with frames := fs ++ rest } := by
  generalize ho : ownCode rest = o at code
  cases code with
  | noteFee i honest =>
    cases step with
    | noteFee =>
      have fee : ({ w.chain with minimalFee := i.minFee } : ChainView) =
          { w.chain with minimalFee := n.minFee } := by rw [honest.2.2.2]
      rw [fee]
      exact .of_own none ho rfl (π.fee _ base) fun _ => .notePeers i honest (π.fee _ base) rfl
  | notePeers i honest _ fee =>
    cases step with
    | notePeers =>
      refine .of_own none ho (by split <;> rfl) ?_ fun _ => .noteKnown i honest ?_ fee ?_
      · rw [honest.2.2.1]
        exact π.peers _ base
      · rw [honest.2.2.1]
        exact π.peers _ base
      · exact honest.2.2.1
  | noteKnown i honest _ fee peers =>
    cases step with
    | noteKnown =>
      refine .of_own none ho (by split <;> rfl) ?_ fun _ => .noteHeight i honest ?_ fee peers ?_
      · rw [honest.2.1]
        exact π.known _ base
      · rw [honest.2.1]
        exact π.known _ base
      · rw [honest.2.1]
        exact ChainView.le_max _ _
  | noteHeight i honest _ fee peers known =>
    cases step with
    | noteHeight =>
      have connected : (decide (0 < i.peerCount)) = n.isConnected := by
        rw [honest.2.2.1, Node.isConnected]
      refine .of_own (g := [.setConnected n.isConnected,
        .askHeader (w.chain.raiseNode n.nodeHeight).1]) none ho ?_ ?_ fun _ =>
          .setConnected _ ⟨fee, peers, known, ?_⟩ ?_ fun raised => ?_
      · rw [connected, honest.1]
        rfl
      · rw [honest.1]
        exact π.height _ base
      · rw [honest.1]
        exact ChainView.le_max _ _
      · rw [honest.1]
        exact π.height _ base
      · rw [honest.1]
        exact π.raised _ base raised
  | setConnected due informed _ heading =>
    cases step with
    | stayConnected b same =>
      exact .of_own none ho rfl base fun _ => .askHeader due ⟨informed, same⟩ base heading
    | setConnected b =>
      exact .of_own none ho rfl (π.connected _ _ base) fun _ =>
        .askHeader due ⟨informed, rfl⟩ (π.connected _ _ base)
          fun isDue => π.connected_heading _ _ (heading isDue)
  | askHeader due met _ heading =>
    cases step with
    | askHeader _ why =>
      refine .of_asking none ho nofun base ⟨met, ?_⟩
      simp only [Bool.or_eq_true, or_assoc] at why
      rcases why with isDue | why
      · exact heading isDue
      · exact π.asks _ base why
    | skipHeader _ why =>
      simp only [Bool.or_eq_false_iff] at why
      have pooling := π.skips (w.poller x) base why.1.2 why.2
      exact .of_own none ho rfl base fun _ => .askPool met pooling
  | noteHeader met heading =>
    cases step with
    | noteHeader b =>
      have pooling := π.header (w.poller x) heading
      refine .of_own none ho (by split <;> rfl) (π.of_pooling _ pooling) fun _ =>
        .askPool ⟨⟨?_, ?_, ?_, ?_⟩, met.connected⟩ pooling
      · exact met.informed.fee
      · exact met.informed.peers
      · exact met.informed.known
      · exact met.informed.height
  | askPool met pooling =>
    cases step with
    | askPool =>
      exact .of_asking none ho nofun base ⟨met, pooling, rfl⟩
  | notePool a met pooling honest =>
    cases step with
    | notePool _ ids u actual change =>
      have tail : w.chain.header.hash = n.header.hash := by
        have := honest.1
        rw [actual] at this
        exact of_decide_eq_true this.symm
      have after := π.actual (w.poller x) a pooling met nodup tail honest
      have same : ids =
          (x.memory.known.change (a.added.map Chain.Transaction.id) a.deleted).1 := by
        rw [change]
      subst same
      exact .of_own none ho (by split <;> rfl) (π.of_after _ after) fun _ =>
        .refreshed ⟨met.informed, met.connected⟩ after
    | poolOutdated _ outdated =>
      have other : w.chain.header.hash ≠ n.header.hash := by
        have := honest.1
        rw [outdated] at this
        exact of_decide_eq_false this.symm
      have after := π.outdated (w.poller x) pooling other
      exact .of_own none ho rfl (π.of_after _ after) fun _ =>
        .refreshed ⟨met.informed, met.connected⟩ after
  | lost e =>
    cases step with
    | stayConnected => exact .of_own none ho rfl base fun _ => .failed e
    | setConnected =>
      exact .of_own none ho rfl (π.connected _ _ base) fun _ => .failed e
  | failed e =>
    cases step with
    | lost => exact .of_own none ho rfl base nofun
    | refreshed => exact .of_own none ho rfl base nofun
  | refreshed met after =>
    cases step with
    | opened => exact .of_own none ho rfl base nofun
    | refreshed => exact .of_own none ho rfl base nofun

/-- What a worker does on its own course brings it on. -/
theorem Tracks.own (tracks : π.Tracks limit (w.poller x) x) (h : x.OnCourse)
    (nodup : x.memory.known.Nodup) (hf : x.frames = f :: rest)
    (step : OwnStep w x f x' c chain fs) :
    π.Tracks limit ⟨chain, x'.memory⟩ { x' with frames := fs ++ rest } := by
  have course := h.course
  have code := tracks.code
  have base := tracks.base
  rw [hf, ownCode_own step.isOwn] at course code
  have none : x.refreshes = 0 := no_refresh course
  by_cases refreshing : RefreshCode (f :: ownCode rest)
  · exact .own_refresh (code refreshing) none base nodup step
  · generalize x.phase = ph, x.refreshing = q, ho : ownCode rest = o at course refreshing
    rw [none] at course
    cases course with
    | refresh _ _ _ code => exact absurd code refreshing
    | connect =>
      cases step with
      | connect =>
        exact .of_asking none ho nofun base base
      | noTransport => exact .of_own none ho rfl base nofun
    | mark =>
      cases step with
      | markInitialized => exact .of_own none ho rfl base nofun
      | markRefused => exact .of_own none ho rfl base nofun
    | goLive =>
      cases step with
      | goLive => exact .of_own none ho rfl base nofun
    | lost | refused | hush =>
      cases step with
      | stayConnected => exact .of_own none ho rfl base nofun
      | setConnected => exact .of_own none ho rfl (π.connected _ _ base) nofun
    | failed | leave | finish => cases step

/-- Code that is no refresh leaves only the tasks to be looked at. -/
theorem Tracks.of_tasks (tracks : π.Tracks limit p x)
    (ready : ∀ g r, (.refresh g, r) ∈ y.runnable → (.refresh g, r) ∈ x.runnable)
    (waits : ∀ g, .refresh g ∈ y.waiting → .refresh g ∈ x.waiting)
    (code : RefreshCode (ownCode y.frames) → π.Code p (ownCode y.frames)) :
    π.Tracks limit p y :=
  ⟨tracks.base, fun g r h => tracks.ready g r (ready g r h), fun g h => tracks.waits g (waits g h),
    code⟩

/-- A task that is ended leaves the refresh failed or no refresh at all. -/
theorem Tracks.cancelled (tracks : π.Tracks limit p x) (task : Task) :
    π.Tracks limit p (x.cancelled task) := by
  cases task with
  | job j q => exact tracks.of_tasks (fun _ _ h => h) (fun _ h => h) fun code => by cases code
  | refresh g =>
    rw [Worker.cancelled]
    split
    · exact tracks.of_tasks (fun _ _ h => h) (fun _ h => h) fun _ => .failed _
    · exact tracks.of_tasks (fun _ _ h => h) (fun _ h => h) fun code => by cases code

theorem Tracks.job (tracks : π.Tracks limit p x) (idle : x.frames = [])
    (same : (∃ j r, y = { x with frames := [.conclude j r] }) ∨
      ∃ j q r, y = { x with runnable := x.runnable ++ [(.job j q, r)] }) :
    π.Tracks limit p y := by
  obtain ⟨j, r, rfl⟩ | ⟨j, q, r, rfl⟩ := same
  · exact tracks.of_tasks (fun _ _ h => h) (fun _ h => h) nofun
  · refine tracks.of_tasks (fun g r h => ?_) (fun _ h => h) ?_
    · simpa using h
    · rw [idle]
      nofun

/-- The code for the reply to a request fits what is known. -/
theorem Code.answered {g : Stage} {a : Exchange.Arrival Exchange.Response} (asks : π.Asks p g)
    (honest : ∀ c, answer g.command limit a = .ok c → n.Answers g c) :
    π.Code p (World.refreshAnswered g limit a) := by
  cases g with
  | info =>
    simp only [World.refreshAnswered]
    split
    · exact .noteFee _ (honest _ ‹_›) asks
    · split
      · exact .lost _
      · exact .failed _
  | header =>
    simp only [World.refreshAnswered]
    split
    · rename_i r ok
      have same : r.header = n.header := honest _ ok
      rw [same]
      exact .noteHeader asks.1 asks.2
    · exact .failed _
  | pool view =>
    simp only [World.refreshAnswered]
    obtain ⟨met, pooling, rfl⟩ := asks
    split
    · exact .notePool _ met pooling (honest _ ‹_›)
    · exact .failed _

theorem Tracks.turn {k : Turn} {es : List Entry} (tracks : π.Tracks limit p x)
    (idle : x.frames = []) (step : TurnStep limit s x k y es) : π.Tracks limit p y := by
  have still {z : Worker} (idle : z.frames = []) : ¬RefreshCode (ownCode z.frames) := by
    rw [idle]
    nofun
  have dropped {task : Task} {r : Ready} {rest : List (Task × Ready)}
      (h : x.runnable = (task, r) :: rest) : π.Tracks limit p { x with runnable := rest } :=
    tracks.of_tasks (fun g r h' => by rw [h]; exact List.mem_cons_of_mem _ h') (fun _ h => h)
      fun h => absurd h (still idle)
  have asked {z : Worker} (idle : z.frames = []) {g : Stage} {r : Ready}
      (tracks : π.Tracks limit p z) (asks : π.Asks p g) (fresh : ∀ a, r ≠ .answered a) :
      π.Tracks limit p { z with runnable := z.runnable ++ [(.refresh g, r)] } := by
    refine ⟨tracks.base, fun g' r' h => ?_, tracks.waits, fun h => absurd h (still idle)⟩
    rcases List.mem_append.mp h with old | new
    · exact tracks.ready g' r' old
    · rw [List.mem_singleton] at new
      cases new
      exact ⟨asks, fun a c same => absurd same (fresh _)⟩
  have moved {task : Task} {r : Ready} {rest : List (Task × Ready)} {g : Stage}
      (h : x.runnable = (task, r) :: rest) (same : task = .refresh g) : π.Asks p g ∧
        ∀ a c, r = .answered (.arrival a) → answer g.command limit a = .ok c → n.Answers g c :=
    tracks.ready g r (by rw [h, same]; exact List.mem_cons_self ..)
  cases step with
  | pollStopped task r rest stopped h => exact (dropped h).cancelled task
  | send task rest going h =>
    refine ⟨tracks.base, (dropped h).ready, fun g waits => ?_, fun h => absurd h (still idle)⟩
    rcases List.mem_append.mp waits with old | new
    · exact tracks.waits g old
    · exact (moved h (List.mem_singleton.mp new).symm).1
  | beginJob j q rest going h =>
    obtain ⟨r, same⟩ | same := ({ x with runnable := rest } : Worker).advanced_cases j q
    · exact (dropped h).job idle (.inl ⟨j, r, same⟩)
    · exact (dropped h).job idle (.inr ⟨j, q, _, same⟩)
  | beginRefresh g rest going h =>
    exact asked (z := { x with runnable := rest }) idle (dropped h) (moved h rfl).1 nofun
  | answered task r rest going h =>
    cases task with
    | job j q =>
      obtain ⟨result, same⟩ | ⟨q', same⟩ :=
        ({ x with runnable := rest } : Worker).answered_job_cases limit j q r
      · exact (dropped h).job idle (.inl ⟨j, result, same⟩)
      · exact (dropped h).job idle (.inr ⟨j, q', _, same⟩)
    | refresh g =>
      obtain ⟨asks, honest⟩ := moved h rfl
      cases r with
      | panic m => exact (dropped h).of_tasks (fun _ _ h => h) (fun _ h => h) fun _ => .failed _
      | arrival a =>
        refine (dropped h).of_tasks (fun _ _ h => h) (fun _ h => h) fun _ => ?_
        change π.Code p (ownCode (World.refreshAnswered g limit a))
        rw [(refreshCode_answered g limit a).2]
        exact .answered asks fun c ok => honest a c rfl ok
  | interrupt i task stopped h =>
    refine Tracks.cancelled (x := { x with waiting := x.waiting.eraseIdx i }) ?_ task
    exact tracks.of_tasks (fun _ _ h => h) (fun g h => List.mem_of_mem_eraseIdx h)
      fun h => absurd h (still idle)
  | wakeStopped => exact tracks.of_tasks (fun _ _ h => h) (fun _ h => h) nofun
  | wake asleep going =>
    refine asked (z := { x with refreshing := .busy }) idle ?_ tracks.base nofun
    exact tracks.of_tasks (fun _ _ h => h) (fun _ h => h) fun h => absurd h (still idle)
  | take j rest live h =>
    refine tracks.of_tasks (fun g r h' => ?_) (fun _ h => h) fun h => absurd h (still idle)
    simpa using h'
  | close =>
    exact tracks.of_tasks (fun _ _ h => h) (fun _ h => h) fun h => absurd h (still idle)
  | reject | finish => exact tracks.of_tasks (fun _ _ h => h) (fun _ h => h) nofun

/-- A worker that runs a frame of its own takes a step of its course, reports a failure or leaves.
-/
theorem ran_own (step : WorldStep w (.run (.worker s)) v) (hx : w.workers[s]? = some x)
    (hf : x.frames = f :: rest) (own : f.isOwn = true) :
    (∃ x' c chain fs, OwnStep w x f x' c chain fs ∧ v.chain = chain ∧
      v.workers[s]? = some { x' with frames := fs ++ rest }) ∨
    (f = .markFailed ∨ f = .leave) ∧ v.chain = w.chain ∧ ∃ ph q,
      v.workers[s]? = some { x with phase := ph, refreshing := q, frames := rest } := by
  have hs : s < w.workers.length := (List.getElem?_eq_some_iff.mp hx).1
  obtain ⟨g, gs, fs, u, code, ran, rfl, -⟩ := step.ran
  rw [frames_worker hx, hf] at code
  obtain ⟨rfl, rfl⟩ := List.cons.inj code
  rw [chain_setFrames]
  cases ran with
  | own f r z x' c chain fs isHere hz own =>
    cases isHere
    rw [hx] at hz
    cases hz
    exact .inl ⟨x', c, chain, fs, own, rfl, by simp [hs]⟩
  | leave r z isHere hz =>
    cases isHere
    rw [hx] at hz
    cases hz
    exact .inr ⟨.inr rfl, rfl, .ended, .over, by simp [hs]⟩
  | markFailed => exact .inr ⟨.inl rfl, rfl, x.phase, x.refreshing, by simp [hx]⟩
  | stray f own none => exact absurd hx (none s x rfl)
  | _ => cases own

/-- What a worker remembers of the pool is there once. -/
theorem nodup_step (step : WorkerStep w m s x y) (h : x.memory.known.Nodup) :
    y.memory.known.Nodup := by
  cases step with
  | others y away touched => rwa [touched.memory]
  | foreign f rest fs u y here hf ran notOwn touched =>
    change y.memory.known.Nodup
    rwa [touched.memory]
  | own f rest fs x' c chain here hf own =>
    cases own with
    | notePool a ids u actual change =>
      have same : ids =
          (x.memory.known.change (a.added.map Chain.Transaction.id) a.deleted).1 := by rw [change]
      subst same
      exact PoolIds.nodup_change h
    | _ => exact h
  | turn k y es here idle stays turn => rwa [turn.same.2.2.1]
  | _ => exact h

/-- A step of a faithful run brings a worker on. -/
theorem Tracks.step (hx : w.workers[s]? = some x) (h : x.OnCourse)
    (nodup : x.memory.known.Nodup) (tracks : π.Tracks w.timeout (w.poller x) x)
    (faithful : n.Faithful s w m) (now : w.step m = some v) :
    ∃ y, v.workers[s]? = some y ∧ π.Tracks v.timeout (v.poller y) y := by
  have step := worldStep_of_step now
  obtain ⟨y, hy, worker⟩ := step.workerStep hx
  refine ⟨y, hy, ?_⟩
  rw [step.settings.2]
  have alone (away : ∀ f rest, m = .run (.worker s) → x.frames = f :: rest → f.isOwn = false) :
      v.chain = w.chain := by
    by_contra changed
    obtain ⟨f, rest, here, code, own⟩ := faithful.alone v now changed
    rw [away f rest here (by rw [← frames_worker hx, code])] at own
    cases own
  have elsewhere (away : m ≠ .run (.worker s)) : v.chain = w.chain :=
    alone fun _ _ here => absurd here away
  have same (chain : v.chain = w.chain) (memory : y.memory = x.memory) :
      v.poller y = w.poller x := by
    rw [World.poller, World.poller, chain, memory]
  cases worker with
  | others y away touched =>
    rw [same (elsewhere away) touched.memory]
    refine tracks.of_tasks (fun g r h => ?_) (fun g h => ?_) ?_
    · rwa [touched.runnable] at h
    · rwa [touched.waiting] at h
    · rw [touched.frames]
      exact tracks.code
  | foreign f rest fs u y here hf ran notOwn touched =>
    have chain : v.chain = w.chain := alone fun g gs _ code => by
      rw [hf] at code
      rwa [← (List.cons.inj code).1]
    rw [same chain touched.memory]
    refine tracks.of_tasks (fun g r h => ?_) (fun g h => ?_) ?_
    · change _ ∈ y.runnable at h
      rwa [touched.runnable] at h
    · change _ ∈ y.waiting at h
      rwa [touched.waiting] at h
    · have left : ownCode (fs ++ rest) = ownCode x.frames := by rw [ran.ownCode_eq notOwn, hf]
      change RefreshCode (ownCode (fs ++ rest)) → π.Code _ (ownCode (fs ++ rest))
      rw [left]
      exact tracks.code
  | own f rest fs x' c chain here hf own =>
    subst here
    obtain ⟨x₂, c₂, chain₂, fs₂, own₂, chain, hy₂⟩ | ⟨which, -⟩ := ran_own step hx hf own.isOwn
    · have now : ({ x' with frames := fs ++ rest } : Worker) = { x₂ with frames := fs₂ ++ rest } :=
        Option.some.inj (hy.symm.trans hy₂)
      have onwards := tracks.own h nodup hf own₂
      rw [now, World.poller, chain]
      exact onwards
    · rcases which with rfl | rfl <;> cases own
  | markFailed rest here hf | leave rest here hf =>
    subst here
    obtain ⟨x₂, c₂, chain₂, fs₂, own₂, -⟩ | ⟨-, chain, -⟩ := ran_own step hx hf rfl
    · cases own₂
    · rw [same chain rfl]
      refine tracks.of_tasks (fun _ _ h => h) (fun _ h => h) fun code => ?_
      exfalso
      have course := h.course
      rw [hf, ownCode_own rfl] at course
      change RefreshCode (ownCode rest) at code
      generalize x.phase = ph, x.refreshing = q, x.refreshes = k, ownCode rest = o at course code
      cases course with
      | refresh _ _ _ code => cases code
      | _ => cases code
  | reply i r task here waits fits =>
    rw [same (elsewhere (by rw [here]; simp)) rfl]
    refine ⟨tracks.base, fun g r' h => ?_, fun g h => tracks.waits g (List.mem_of_mem_eraseIdx h),
      tracks.code⟩
    rcases List.mem_append.mp h with old | new
    · exact tracks.ready g r' old
    · rw [List.mem_singleton] at new
      cases new
      refine ⟨tracks.waits g (List.mem_of_getElem? waits), fun a c same ok => ?_⟩
      cases same
      exact faithful.honest i a x g c here hx waits ok
  | turn k y es here idle stays turn =>
    rw [same (elsewhere (by rw [here]; simp)) turn.same.2.2.1]
    exact tracks.turn idle turn

end Steps

end Pass

end RemoteNode.Session
