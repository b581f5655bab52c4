import RemoteNode.Proofs.Session.Announcing
import RemoteNode.Proofs.Session.Convergence
import RemoteNode.Proofs.Session.Forgetting

/-! What is known of the chain sums up the replies that were accepted, and what observers are told
leads to it. This lasts as long as the handle of the worker is held, unless its first refresh fails:
then all is forgotten. -/

namespace RemoteNode.Session

open Chain
open Observer (Notice)

/-- What a node says of itself. -/
def Accepted.info? : Accepted → Option Command.NodeInfo
  | info i => some i
  | _ => none

/-- What a node says of its top header. -/
def Accepted.header? : Accepted → Option BlockHeader
  | header h => some h
  | _ => none

/-- What nodes say of themselves in some replies. -/
def infos (bs : List Accepted) : List Command.NodeInfo := bs.filterMap Accepted.info?

/-- The top headers of some replies. -/
def headers (bs : List Accepted) : List BlockHeader := bs.filterMap Accepted.header?

/-- What some replies say of the chain, latest first: the greatest heights, and the latest of all
else. -/
def summary (bs : List Accepted) : ChainView where
  peerCount := ((infos bs).head?.map Command.NodeInfo.peerCount).getD 0
  nodeHeight := (infos bs).foldr (fun i top => max top i.height) 0
  knownHeight := (infos bs).foldr (fun i top => max top (highest i)) 0
  minimalFee := ((infos bs).head?.map Command.NodeInfo.minFee).getD 0
  header := (headers bs).head?.getD default

/-- Some values, latest first, lead from `a` to the last of them, each to the next by `r`. -/
inductive Leads {α : Type} (r : α → α → Prop) (a : α) : List α → α → Prop
  | nil : Leads r a [] a
  | cons {xs : List α} {b : α} (before : Leads r a xs b) (x : α) (next : r b x) :
      Leads r a (x :: xs) x

/-- The height that a node is said to know of. -/
def knownHeight? : Notice → Option UInt32
  | .knownHeight h => some h
  | _ => none

/-- The peers that are told. -/
def peers? : Notice → Option UInt64
  | .peers n => some n
  | _ => none

/-- The notice is about the top header. -/
def isTop : Notice → Bool
  | .localHeight _ | .header _ => true
  | _ => false

/-- Notices, latest first, tell what is known of the chain: the heights that the node knows of rise
to the one that is known, the peers change to those that are known, and headers of other blocks come
with their heights, the last with the hash that is known. -/
structure Tells (ns : List Notice) (v : ChainView) : Prop where
  heights : Leads (· < ·) 0 (ns.filterMap knownHeight?) v.knownHeight
  peers : Leads (· ≠ ·) 0 (ns.filterMap peers?) v.peerCount
  tops : ∃ hs : List BlockHeader,
    ns.filter isTop = hs.flatMap (fun h => [.header h, .localHeight h.index]) ∧
      Leads (· ≠ ·) (default : BlockHeader).hash (hs.map (·.hash)) v.header.hash

namespace ChainView

/-- What is known once a frame has taken note of its answer. -/
def take (v : ChainView) : Frame → ChainView
  | .noteFee i => { v with minimalFee := i.minFee }
  | .notePeers i => (v.withPeers i.peerCount).2
  | .noteKnown i => (v.raiseKnown (highest i)).2
  | .noteHeight i => (v.raiseNode i.height).2
  | .noteHeader h => (v.withHeader h).2
  | _ => v

/-- What is known once all code has taken note of its answers. -/
def after (v : ChainView) (fs : List Frame) : ChainView := fs.foldl take v

end ChainView

section Sums
variable {w u v : World} {m : Move} {s : Nat} {x y x' : Worker} {f : Frame}
  {fs gs rest : List Frame} {c : Connection} {chain d : ChainView} {b : Accepted}
  {bs : List Accepted} {ns os : List Notice} {limit : Exchange.Timeout}

theorem summary_cons (b : Accepted) (bs : List Accepted) :
    summary (b :: bs) = (summary bs).after b.code := by
  cases b <;> rfl

namespace ChainView

theorem after_append (d : ChainView) (fs gs : List Frame) :
    d.after (fs ++ gs) = (d.after fs).after gs := List.foldl_append

theorem take_of_not_writes (quiet : f.writes = false) : d.take f = d := by
  cases f <;> first | rfl | cases quiet

/-- Code that writes nothing leaves what is known. -/
theorem after_of_quiet (quiet : ∀ g ∈ fs, g.writes = false) : d.after fs = d := by
  induction fs with
  | nil => rfl
  | cons f fs ih =>
    change (d.take f).after fs = d
    rw [take_of_not_writes (quiet f (List.mem_cons_self ..))]
    exact ih fun g hg => quiet g (List.mem_cons_of_mem _ hg)

/-- No frame lowers a height. -/
theorem le_take (d : ChainView) (f : Frame) :
    d.nodeHeight ≤ (d.take f).nodeHeight ∧ d.knownHeight ≤ (d.take f).knownHeight := by
  cases f with
  | noteKnown i => exact ⟨UInt32.le_refl _, le_max_left _ _⟩
  | noteHeight i => exact ⟨le_max_left _ _, UInt32.le_refl _⟩
  | _ => exact ⟨UInt32.le_refl _, UInt32.le_refl _⟩

end ChainView

theorem OwnStep.take (own : OwnStep w x f x' c chain fs) : chain = w.chain.take f := by
  cases own <;> rfl

/-- Code that writes nothing is all that is not of the course of a worker. -/
theorem writes_of_foreign (foreign : f.isOwn = false) : f.writes = false := by
  cases f <;> first | rfl | cases foreign

theorem OwnStep.writes (own : OwnStep w x f x' c chain fs) : ∀ g ∈ fs, g.writes = false := by
  intro g hg
  by_contra writes
  have notes := own.notes g hg
  rw [notes_of_writes (by simpa using writes)] at notes
  cases notes

/-- What a worker is still to take note of changes in a step by the frame that runs, or by what it
accepts. -/
theorem WorkerStep.after (step : WorkerStep w m s x y)
    (before : ∀ f ∈ y.frames, f.notes = true → f ∈ x.frames)
    (quiet : ∀ f rest, m = .run (.worker s) → x.frames = f :: rest → f.writes = false) :
    d.after y.frames = d.after x.frames := by
  have pops {f : Frame} {fs rest : List Frame} (silent : f.writes = false)
      (none : ∀ g ∈ fs, g.writes = false) : d.after (fs ++ rest) = d.after (f :: rest) := by
    rw [ChainView.after_append, ChainView.after_of_quiet none]
    exact congrArg (ChainView.after · rest) (ChainView.take_of_not_writes silent).symm
  cases step with
  | others y _ touched => rw [touched.frames]
  | foreign f rest fs u y here hf step notOwn touched =>
    rw [hf]
    exact pops (writes_of_foreign notOwn) fun g hg => writes_of_foreign (step.foreign notOwn g hg)
  | own f rest fs x' c chain here hf own =>
    rw [hf]
    exact pops (quiet f rest here hf) own.writes
  | markFailed rest here hf | leave rest here hf =>
    rw [hf]
    exact pops rfl (List.forall_mem_nil _)
  | reply => rfl
  | turn k y es here idle =>
    rw [idle] at before ⊢
    refine ChainView.after_of_quiet fun g hg => ?_
    by_contra writes
    cases before g hg (notes_of_writes (by simpa using writes))

namespace Tells

theorem initial : Tells [] .initial := ⟨.nil, .nil, [], rfl, .nil⟩

theorem other (h : Tells ns d) (quiet : ∀ n ∈ os, (knownHeight? n = none ∧ peers? n = none) ∧
    isTop n = false) : Tells (os ++ ns) d := by
  obtain ⟨heights, peers, hs, tops, hashes⟩ := h
  have none {α : Type} {p : Notice → Option α} (h : ∀ n ∈ os, p n = .none) :
      (os ++ ns).filterMap p = ns.filterMap p := by
    rw [List.filterMap_append, List.filterMap_eq_nil_iff.mpr h, List.nil_append]
  refine ⟨?_, ?_, hs, ?_, hashes⟩
  · rwa [none fun n hn => (quiet n hn).1.1]
  · rwa [none fun n hn => (quiet n hn).1.2]
  · rw [List.filter_append, List.filter_eq_nil_iff.mpr, List.nil_append, tops]
    intro n hn top
    rw [(quiet n hn).2] at top
    cases top

theorem of_other (h : Tells (os ++ ns) d)
    (quiet : ∀ n ∈ os, (knownHeight? n = none ∧ peers? n = none) ∧ isTop n = false) :
    Tells ns d := by
  obtain ⟨heights, peers, hs, tops, hashes⟩ := h
  rw [List.filterMap_append, List.filterMap_eq_nil_iff.mpr fun n hn => (quiet n hn).1.1] at heights
  rw [List.filterMap_append, List.filterMap_eq_nil_iff.mpr fun n hn => (quiet n hn).1.2] at peers
  rw [List.filter_append, List.filter_eq_nil_iff.mpr fun n hn => by simp [(quiet n hn).2]] at tops
  exact ⟨heights, peers, hs, tops, hashes⟩

/-- What a worker tells when it takes note of something goes on with what it told. -/
theorem own (h : Tells ns d) (own : OwnStep w x f x' c chain fs)
    (same : f.writes = true → w.chain = d) : Tells ((pending fs).reverse ++ ns) (d.take f) := by
  obtain ⟨heights, peers, hs, tops, hashes⟩ := h
  cases own with
  | notePeers i =>
    obtain rfl := same rfl
    cases changed : (w.chain.withPeers i.peerCount).1 with
    | false =>
      have still : w.chain.peerCount = i.peerCount := by simpa [ChainView.withPeers] using changed
      refine ⟨heights, ?_, hs, tops, hashes⟩
      change Leads _ 0 (ns.filterMap peers?) i.peerCount
      rw [← still]
      exact peers
    | true =>
      refine ⟨heights, peers.cons i.peerCount ?_, hs, tops, hashes⟩
      simpa [ChainView.withPeers] using changed
  | noteKnown i =>
    obtain rfl := same rfl
    cases raised : (w.chain.raiseKnown (highest i)).1 with
    | false =>
      have low : highest i ≤ w.chain.knownHeight := by
        simpa [ChainView.raiseKnown] using raised
      refine ⟨?_, peers, hs, tops, hashes⟩
      rw [ChainView.take, ChainView.raiseKnown_of_le low]
      exact heights
    | true =>
      have more : w.chain.knownHeight < highest i := by
        simpa [ChainView.raiseKnown] using raised
      have now : (w.chain.raiseKnown (highest i)).2.knownHeight = highest i :=
        if_pos (UInt32.le_of_lt more)
      refine ⟨?_, peers, hs, tops, hashes⟩
      rw [ChainView.take, now]
      exact heights.cons _ more
  | noteHeader h =>
    obtain rfl := same rfl
    cases changed : (w.chain.withHeader h).1 with
    | false =>
      have still : w.chain.header.hash = h.hash := by simpa [ChainView.withHeader] using changed
      refine ⟨heights, peers, hs, tops, ?_⟩
      change Leads _ _ _ h.hash
      rw [← still]
      exact hashes
    | true =>
      have other : w.chain.header.hash ≠ h.hash := by simpa [ChainView.withHeader] using changed
      exact ⟨heights, peers, h :: hs,
        congrArg ([Notice.header h, .localHeight h.index] ++ ·) tops, hashes.cons _ other⟩
  | notePool a ids update =>
    cases update.isEmpty <;> exact ⟨heights, peers, hs, tops, hashes⟩
  | noteFee | noteHeight =>
    obtain rfl := same rfl
    exact ⟨heights, peers, hs, tops, hashes⟩
  | _ => exact ⟨heights, peers, hs, tops, hashes⟩

end Tells

/-- A worker that is to report a failure still stands for an opening. -/
theorem stands_of_failing (h : x.OnCourse) (fails : .markFailed ∈ x.frames) :
    x.stands = .initializing := by
  have course := h.course
  rw [← mem_ownCode rfl] at fails
  rw [Worker.stands]
  generalize x.phase = p, x.refreshing = q, x.refreshes = k, ownCode x.frames = o at course fails
  cases course with
  | lost | failed => rfl
  | refresh _ _ _ code => cases code <;> simp at fails
  | _ => simp at fails

/-- A worker whose handle is held held it before. -/
theorem WorldStep.held (step : WorldStep w m v) (hx : w.workers[s]? = some x)
    (held : v.connection.worker = some s) : w.connection.worker = some s := by
  by_contra unheld
  exact (unheld_step step (List.getElem?_eq_some_iff.mp hx).1 unheld).2 held

namespace World

/-- Something is known that the replies accepted by a worker sum up to, once it has taken note of
the last, and that it has told. This is what is known, but for a failure. -/
structure Sums (w : World) (s : Nat) (x : Worker) (d : ChainView) : Prop where
  accepts : d.after x.frames = summary (accepted s w.timeout w.log)
  tells : Tells (w.announces s) d
  chain : w.chain = d ∨
    w.chain = .initial ∧ (.markFailed ∈ x.frames ∨ w.connection.state = .notInitialized)

namespace Sums

/-- A worker that has failed does not come back as long as its handle is held. -/
theorem failed_step (sound : w.Sound) (owned : w.Owned) (hx : w.workers[s]? = some x)
    (held : w.connection.worker = some s) (step : WorldStep w m v) (hy : v.workers[s]? = some y)
    (held' : v.connection.worker = some s)
    (failed : .markFailed ∈ x.frames ∨ w.connection.state = .notInitialized) :
    .markFailed ∈ y.frames ∨ v.connection.state = .notInitialized := by
  obtain fails | state := failed
  · have stands := stands_of_failing (sound.courses s x hx) fails
    obtain ⟨-, calm, z, hz, -, same⟩ := owned.held s held
    rw [hx] at hz
    cases hz
    rw [← frames_worker hx] at fails
    obtain left | ⟨rest, fs, u, rfl, code, ran, rfl, -⟩ := step.frame fails
    · exact .inl (frames_worker hy ▸ left)
    · right
      rw [connection_setFrames]
      cases ran with
      | markFailed => simp [Connection.markFailed, calm, ← same, stands]
      | own f r x x' c chain fs isHere hx own => cases own
      | stray f own none => exact absurd hx (none s x rfl)
  · right
    obtain same | ⟨t, f, rest, -, -, change⟩ := step.connectionStep
    · exact same ▸ state
    · generalize v.connection = c at change held'
      cases change with
      | keep => exact state
      | start =>
        have there := (List.getElem?_eq_some_iff.mp hx).1
        obtain rfl := Option.some.inj held'
        omega
      | take | begin => cases held'
      | mark _ _ _ opening =>
        rw [state] at opening
        cases opening
      | fail | finish => rfl

theorem write (h : w.Sums s x d) (sound : w.Sound) (owned : w.Owned) (forgets : w.Forgets)
    (layers : Layered (w.frames (.worker s))) (hx : w.workers[s]? = some x)
    (step : WorldStep w (.run (.worker s)) v) (hy : v.workers[s]? = some y)
    (hf : x.frames = f :: rest) (writes : f.writes = true) : v.Sums s y (d.take f) := by
  have isOwn : f.isOwn = true := isOwn_of_notes (notes_of_writes writes)
  have busy : x.writes = true := writes_of_code hf writes
  have same : w.chain = d := by
    obtain same | ⟨-, fails | state⟩ := h.chain
    · exact same
    · rw [(Forgets.quiet_of_failing sound hx fails).2] at busy
      cases busy
    · rw [forgets.quiet_of_state owned sound state hx] at busy
      cases busy
  obtain ⟨x', c, fs, own, hy', grown⟩ | ⟨rfl | rfl, -⟩ := announces_own layers hx step hf isOwn
  · rw [hy] at hy'
    cases hy'
    obtain ⟨es, log, ⟨silent, -⟩ | ⟨b, k, -, here, -⟩⟩ := step.accepted hx hy
    · refine ⟨?_, ?_, .inl (same ▸ own.take)⟩
      · rw [log, accepted_append, step.settings.2, silent, List.nil_append, ← h.accepts, hf]
        change (d.take f).after (fs ++ rest) = (d.take f).after rest
        rw [ChainView.after_append, ChainView.after_of_quiet own.writes]
      · rw [grown]
        exact h.tells.own own fun _ => same
    · cases here
  · cases writes
  · cases writes

theorem stay (h : w.Sums s x d) (sound : w.Sound) (owned : w.Owned)
    (layers : Layered (w.frames (.worker s))) (hx : w.workers[s]? = some x)
    (held : w.connection.worker = some s) (step : WorldStep w m v) (hy : v.workers[s]? = some y)
    (held' : v.connection.worker = some s)
    (quiet : ∀ f rest, m = .run (.worker s) → x.frames = f :: rest → f.writes = false) :
    v.Sums s y d := by
  obtain ⟨z, hz, worker⟩ := step.workerStep hx
  rw [hy] at hz
  cases hz
  constructor
  · obtain ⟨es, log, ⟨silent, before⟩ | ⟨b, k, one, -, idle, code⟩⟩ := step.accepted hx hy
    · rw [log, accepted_append, step.settings.2, silent, List.nil_append, ← h.accepts]
      exact worker.after before quiet
    · rw [log, accepted_append, step.settings.2, one, List.singleton_append, summary_cons,
        ← h.accepts, idle, code]
      rfl
  · obtain ⟨f, rest, rfl, hf, isOwn⟩ | away := runs_own_or m s x
    · obtain ⟨x', c, fs, own, -, grown⟩ | ⟨-, -, same, -⟩ := announces_own layers hx step hf isOwn
      · have silent := quiet f rest rfl hf
        rw [grown, ← ChainView.take_of_not_writes (d := d) silent]
        refine h.tells.own own fun writes => ?_
        rw [silent] at writes
        cases writes
      · rw [same]
        exact h.tells
    · rw [(announces_away hx step hy away).1]
      exact h.tells
  · by_cases same : v.chain = w.chain
    · rw [same]
      obtain known | ⟨initial, failed⟩ := h.chain
      · exact .inl known
      · exact .inr ⟨initial, failed_step sound owned hx held step hy held' failed⟩
    · right
      obtain ⟨f, rest, rfl, code, isOwn | ⟨rfl, fails⟩⟩ := alone_of_held sound owned held step same
      · exfalso
        rw [frames_worker hx] at code
        obtain ⟨x', c, fs, own, -⟩ | ⟨-, still, -⟩ := announces_own layers hx step code isOwn
        · refine same (own.take.trans ?_)
          exact ChainView.take_of_not_writes (quiet f rest rfl code)
        · exact same still
      · obtain ⟨g, gs, fs, u, code', ran, rfl, now⟩ := step.ran
        rw [code] at code'
        obtain ⟨rfl, rfl⟩ := List.cons.inj code'
        rw [frames_worker hy] at now
        refine ⟨?_, .inl (now ▸ List.mem_append_right _ fails)⟩
        rw [chain_setFrames]
        cases ran with
        | forgetChain => rfl
        | own f r x x' c chain fs isHere hx own => cases own
        | stray f own => cases own

/-- The sum goes on as long as the handle of the worker is held, and its heights never fall. -/
theorem step (h : w.Sums s x d) (sound : w.Sound) (owned : w.Owned) (forgets : w.Forgets)
    (telling : w.Telling) (hx : w.workers[s]? = some x) (step : WorldStep w m v)
    (hy : v.workers[s]? = some y) (held : v.connection.worker = some s) :
    ∃ e, v.Sums s y e ∧ d.nodeHeight ≤ e.nodeHeight ∧ d.knownHeight ≤ e.knownHeight := by
  by_cases writes : ∃ f rest, m = .run (.worker s) ∧ x.frames = f :: rest ∧ f.writes = true
  · obtain ⟨f, rest, rfl, hf, writes⟩ := writes
    exact ⟨_, h.write sound owned forgets (telling.layers _) hx step hy hf writes, d.le_take f⟩
  · refine ⟨d, h.stay sound owned (telling.layers _) hx (step.held hx held) step hy held ?_,
      UInt32.le_refl _, UInt32.le_refl _⟩
    intro f rest here hf
    by_contra wrote
    exact writes ⟨f, rest, here, hf, by simpa using wrote⟩

end Sums

/-- Where the handle of a worker is held, what it has accepted sums up. -/
theorem exists_sums {w₀ w : World} {s : Nat} {x : Worker} (first : w₀.Untouched)
    (run : w₀.ReachesBy Orderly w) (hx : w.workers[s]? = some x)
    (held : w.connection.worker = some s) : ∃ d, w.Sums s x d := by
  induction run generalizing s x with
  | refl =>
    rw [first.workers] at hx
    cases hx
  | @step w v m reach ok now sums =>
    have step := worldStep_of_step now
    have forgets := Forgets.of_reaches first reach
    have telling := Telling.of_reaches first reach.reaches
    cases hz : w.workers[s]? with
    | some z =>
      obtain ⟨d, h⟩ := sums hz (step.held hz held)
      obtain ⟨e, h, -⟩ := h.step (.of_reaches first reach.reaches) (.of_reaches first reach) forgets
        telling hz step hx held
      exact ⟨e, h⟩
    | none =>
      obtain ⟨z', hz', -⟩ | ⟨new, t, cb, rest, rfl, code, rfl⟩ := step.cameFrom hx
      · rw [hz] at hz'
        cases hz'
      · obtain ⟨-, state, same, -⟩ := step.started new hx
        obtain ⟨es, log, quiet⟩ := step.quiet (s := s) nofun
        refine ⟨.initial, ?_, ?_, .inl (same.trans (forgets.chain state))⟩
        · rw [log, accepted_append, accepted_of_quiet quiet, accepted_absent first reach.reaches hz]
          rfl
        · rw [telling.started step hz hx]
          exact .initial

/-- As long as the handle of the worker is held, the heights of the sum never fall. -/
theorem Sums.of_reachesBy {w₀ : World} (first : w₀.Untouched) (reach : w₀.ReachesBy Orderly w)
    (h : w.Sums s x d) (hx : w.workers[s]? = some x) (run : w.ReachesBy Orderly v)
    (hy : v.workers[s]? = some y) (held : v.connection.worker = some s) :
    ∃ e, v.Sums s y e ∧ d.nodeHeight ≤ e.nodeHeight ∧ d.knownHeight ≤ e.knownHeight := by
  induction run generalizing y with
  | refl =>
    rw [hx] at hy
    cases hy
    exact ⟨d, h, UInt32.le_refl _, UInt32.le_refl _⟩
  | @step u v m past ok now ih =>
    have step := worldStep_of_step now
    obtain ⟨z, hz⟩ : ∃ z, u.workers[s]? = some z :=
      past.keeps (P := fun u => ∃ z, u.workers[s]? = some z) ⟨x, hx⟩
        fun u m v ⟨z, hz⟩ _ step => by
          obtain ⟨y, hy, -⟩ := step.workerStep hz
          exact ⟨y, hy⟩
    have reach := reach.trans past
    obtain ⟨e, h, node, known⟩ := ih hz (step.held hz held)
    obtain ⟨e', h, node', known'⟩ := h.step (.of_reaches first reach.reaches)
      (.of_reaches first reach) (.of_reaches first reach) (.of_reaches first reach.reaches) hz step
      hy held
    exact ⟨e', h, UInt32.le_trans node node', UInt32.le_trans known known'⟩

/-- Between refreshes the sum is of all that was accepted, and all has been told. -/
theorem Sums.between {w₀ : World} (first : w₀.Untouched) (reach : w₀.Reaches w)
    (h : w.Sums s x d) (hx : w.workers[s]? = some x) (between : x.IsBetween) :
    d = summary (accepted s w.timeout w.log) ∧ Tells (told s w.log) d := by
  have course := (Sound.of_reaches first reach).courses s x hx
  constructor
  · rw [← h.accepts, ChainView.after_of_quiet fun g hg => ?_]
    by_contra writes
    have notes := course.not_notes between.code g hg
    rw [notes_of_writes (by simpa using writes)] at notes
    cases notes
  · refine h.tells.of_other fun n inPending => ?_
    have pending := mem_pending.mp (List.mem_reverse.mp inPending)
    rw [frames_worker hx] at pending
    by_cases other : ∀ b, n ≠ .connected b
    · exact absurd (refreshing_of_notify first reach hx pending other) between.code
    · obtain ⟨b, rfl⟩ := not_forall_not.mp other
      exact ⟨⟨rfl, rfl⟩, rfl⟩

/-- What is known of the chain and what is told of it while the handle of a worker is held. -/
structure Chronicle (w : World) (s : Nat) (x : Worker) : Prop where
  /-- Between refreshes what is known sums up the replies that were accepted, and what was told
  leads to it, unless the first refresh has failed. -/
  sums : x.IsBetween → .markFailed ∉ x.frames → w.connection.state ≠ .notInitialized →
    w.chain = summary (accepted s w.timeout w.log) ∧ Tells (told s w.log) w.chain
  /-- In the midst of a refresh the worker has still to take note of the last reply. -/
  midst : .markFailed ∉ x.frames → w.connection.state ≠ .notInitialized →
    w.chain.after x.frames = summary (accepted s w.timeout w.log) ∧ Tells (w.announces s) w.chain
  /-- After a failure too, what was told leads to a sum. -/
  tells : ∃ d : ChainView, d.after x.frames = summary (accepted s w.timeout w.log) ∧
    Tells (w.announces s) d
  /-- A worker that is to report that its first refresh has failed forgets what is known before. -/
  fails : .markFailed ∈ x.frames → .forgetChain ∈ x.frames ∨ w.chain = .initial
  failed : w.connection.state = .notInitialized → w.chain = .initial
  ordered : w.chain.nodeHeight ≤ w.chain.knownHeight
  /-- The heights do not fall until the first refresh fails or the handle is given up. -/
  rises : ∀ v y, w.ReachesBy Orderly v → v.workers[s]? = some y → v.connection.worker = some s →
    .markFailed ∉ y.frames → v.connection.state ≠ .notInitialized →
      w.chain.nodeHeight ≤ v.chain.nodeHeight ∧ w.chain.knownHeight ≤ v.chain.knownHeight

/-- Whatever replies there are, what is known sums them up while the handle of the worker is held.
-/
theorem chronicle_of_held {w₀ : World} (first : w₀.Untouched) (run : w₀.ReachesBy Orderly w)
    (hx : w.workers[s]? = some x) (held : w.connection.worker = some s) : w.Chronicle s x := by
  have forgets := Forgets.of_reaches first run
  obtain ⟨d, h⟩ := exists_sums first run hx held
  have known {v : World} {y : Worker} {e : ChainView} (h : v.Sums s y e)
      (fine : .markFailed ∉ y.frames) (state : v.connection.state ≠ .notInitialized) :
      v.chain = e := by
    obtain same | ⟨-, fails | lost⟩ := h.chain
    · exact same
    · exact absurd fails fine
    · exact absurd lost state
  constructor
  · intro between fine state
    rw [known h fine state]
    exact h.between first run.reaches hx between
  · intro fine state
    rw [known h fine state]
    exact ⟨h.accepts, h.tells⟩
  · exact ⟨d, h.accepts, h.tells⟩
  · exact forgets.failing s x hx
  · exact forgets.chain
  · exact forgets.ordered.le
  · intro v y later hy held' fine state
    obtain ⟨e, h', node, height⟩ := h.of_reachesBy first run hx later hy held'
    rw [known h' fine state]
    obtain same | ⟨initial, -⟩ := h.chain
    · rw [same]
      exact ⟨node, height⟩
    · rw [initial]
      exact ⟨UInt32.zero_le, UInt32.zero_le⟩

end World

end Sums

namespace World

set_option maxRecDepth 20000 in
/-- After three refreshes that succeed, the second of which finds the tail outdated, two top headers
have been told. -/
theorem chronicle_twice : ∃ w x, Node.patient.ReachesBy Orderly w ∧ w.workers[0]? = some x ∧
    x.IsBetween ∧ (infos (accepted 0 w.timeout w.log)).length = 3 ∧
      ((told 0 w.log).filter isTop).length = 4 ∧ w.chain.nodeHeight = 5 ∧ w.Chronicle 0 x := by
  have found : (Node.patient.checkedSteps isOrderly
      (Node.opening .connectivity 12 4 6 ++ Node.twice 4 (Node.nothingBody 1) 2)).any (fun w =>
        w.connection.worker = some 0 && (w.workers[0]?).any (fun x =>
          x.refreshes = 0 && x.frames.isEmpty) &&
            (infos (accepted 0 w.timeout w.log)).length = 3 &&
              ((told 0 w.log).filter isTop).length = 4 && w.chain.nodeHeight = 5) = true := by
    decide +kernel
  obtain ⟨w, hw, found⟩ := (Option.any_eq_true ..).mp found
  simp only [Bool.and_eq_true, decide_eq_true_eq, Option.any_eq_true, List.isEmpty_iff] at found
  obtain ⟨⟨⟨⟨held, x, hx, unasked, idle⟩, replies⟩, tops⟩, height⟩ := found
  have run := ReachesBy.of_checkedSteps (fun _ _ h => orderly_of_isOrderly h) hw
  exact ⟨w, x, run, hx, ⟨unasked, by rw [idle]; nofun⟩, replies, tops, height,
    chronicle_of_held ⟨1, .standard, true, _, _, rfl⟩ run hx held⟩

/-- The move begins no shutdown. -/
def Unshut (w : World) (m : Move) : Prop :=
  ∀ t src a rest, m = .run t → w.frames t ≠ .beginShutdown src a :: rest

/-- Tells whether a move begins no shutdown. -/
def isUnshut (w : World) : Move → Bool
  | .run t =>
    match w.frames t with
    | .beginShutdown _ _ :: _ => false
    | _ => true
  | _ => true

theorem unshut_of_isUnshut {w : World} {m : Move} (h : w.isUnshut m = true) : w.Unshut m := by
  rintro t src a rest rfl code
  simp [isUnshut, code] at h

/-- A caller initializes, the node says of itself that it has a height, and is lost. -/
def untilLost : List Move :=
  .call 0 (.init "first" []) :: List.replicate 5 (.run (.caller 0)) ++
    .run (.worker 0) :: Node.replied (answered infoBody) 9 ++ Node.replied (.arrival .late) 8

set_option maxRecDepth 20000 in
/-- If the first refresh fails, what is known sums up nothing, though nobody has called a shutdown.
-/
theorem exists_not_summary : ∃ w₀ w x, Untouched w₀ ∧ w₀.ReachesBy Unshut w ∧
    w.workers[0]? = some x ∧ w.connection.worker = some 0 ∧ x.IsBetween ∧
      (summary (accepted 0 w.timeout w.log)).nodeHeight = 5 ∧
        (told 0 w.log).filterMap knownHeight? = [5] ∧ w.chain = .initial := by
  have found : (Node.patient.checkedSteps isUnshut untilLost).any (fun w =>
      w.connection.worker = some 0 && (w.workers[0]?).any (fun x =>
        x.refreshes = 0 && x.frames.isEmpty) &&
          (summary (accepted 0 w.timeout w.log)).nodeHeight = 5 &&
            (told 0 w.log).filterMap knownHeight? = [5] && w.chain = .initial) = true := by
    decide +kernel
  obtain ⟨w, hw, found⟩ := (Option.any_eq_true ..).mp found
  simp only [Bool.and_eq_true, decide_eq_true_eq, Option.any_eq_true, List.isEmpty_iff] at found
  obtain ⟨⟨⟨⟨held, x, hx, unasked, idle⟩, height⟩, heights⟩, forgotten⟩ := found
  exact ⟨_, w, x, ⟨1, .standard, true, _, _, rfl⟩,
    .of_checkedSteps (fun _ _ h => unshut_of_isUnshut h) hw, hx, held,
    ⟨unasked, by rw [idle]; nofun⟩, height, heights, forgotten⟩

end World

end RemoteNode.Session
