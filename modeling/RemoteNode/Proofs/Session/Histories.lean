import RemoteNode.Proofs.Session.Draining
import RemoteNode.Proofs.Session.Isolation

/-! What has happened in a run. The connection changes in seven ways, each of them one frame; a
history keeps every world and move of a run, so that it tells when a shutdown began and which worker
made the connection initialized. -/

namespace RemoteNode.Session

/-- How running a frame changes the connection. -/
inductive ConnectionStep (w : World) (t : Thread) : Frame → Connection → Prop
  | keep (f : Frame) : ConnectionStep w t f w.connection
  | take (cb : Callback) (state : w.connection.state = .notInitialized)
    (calm : w.connection.stopping = false) : ConnectionStep w t (.takeStale cb) .initial
  | start (cb : Callback) (calm : w.connection.stopping = false)
    (state : w.connection.state = .notInitialized) :
    ConnectionStep w t (.start cb)
      ⟨.initializing, false, some w.workers.length, some w.workers.length⟩
  | mark (s : Nat) (here : t = .worker s) (calm : w.connection.stopping = false)
    (state : w.connection.state = .initializing) :
    ConnectionStep w t .markInitialized { w.connection with state := .initialized }
  | fail (calm : w.connection.stopping = false) (state : w.connection.state = .initializing) :
    ConnectionStep w t .markFailed { w.connection with state := .notInitialized }
  | begin (src : Source) (a : Act) (s : Nat) (calm : w.connection.stopping = false)
    (held : w.connection.worker = some s) :
    ConnectionStep w t (.beginShutdown src a)
      { w.connection with worker := none, stopping := true }
  | finish : ConnectionStep w t .finishShutdown w.connection.finishShutdown

section Connections
variable {w u v : World} {m : Move} {t : Thread} {f : Frame} {fs rest : List Frame} {s r : Nat}
  {x : Worker}

theorem FrameStep.connectionStep (step : FrameStep w t f u fs) :
    ConnectionStep w t f u.connection := by
  cases step with
  | takeStale cb s state calm | takeNothing cb state calm => exact .take cb state calm
  | start cb calm state => exact .start cb calm state
  | beginShutdown src a s calm held => exact .begin src a s calm held
  | finishShutdown => exact .finish
  | markFailed =>
    change ConnectionStep w t .markFailed w.connection.markFailed
    rw [Connection.markFailed]
    split
    · rename_i h
      exact .fail h.1 h.2
    · exact .keep _
  | own f s x x' c chain fs isHere hx step =>
    cases step with
    | markInitialized calm state => exact .mark s isHere calm state
    | _ => exact .keep _
  | init | operate | register | unregister | unregisterAwait | notifyNobody | notify | delivered
  | deliver =>
    simp only [World.draw, World.record, World.setRegistry_eq, World.setDelivery_eq]
    exact .keep _
  | _ => exact .keep _

theorem WorldStep.connectionStep (step : WorldStep w m v) : v.connection = w.connection ∨
    ∃ t f rest, m = .run t ∧ w.frames t = f :: rest ∧ ConnectionStep w t f v.connection := by
  cases m with
  | run t =>
    obtain ⟨f, rest, fs, u, code, ran, rfl, -⟩ := step.ran
    rw [connection_setFrames]
    exact .inr ⟨t, f, rest, rfl, code, ran.connectionStep⟩
  | call | release | reply | turn => cases step; exact .inl rfl

/-- A worker whose handle is no longer held is never held again. -/
theorem unheld_step (step : WorldStep w m v) (there : s < w.workers.length)
    (unheld : w.connection.worker ≠ some s) :
    s < v.workers.length ∧ v.connection.worker ≠ some s := by
  refine ⟨by obtain same | ⟨more, -⟩ := step.length_workers <;> omega, ?_⟩
  obtain same | ⟨t, f, rest, -, -, change⟩ := step.connectionStep
  · rwa [same]
  · generalize v.connection = c at change ⊢
    cases change with
    | start =>
      intro same
      have := Option.some.inj same
      omega
    | take | begin => simp [Connection.initial]
    | _ => exact unheld

end Connections

namespace World

/-- A run with its history: the worlds it went through and the moves it made in them, latest
first. -/
inductive Trace (allowed : World → Move → Prop) (w : World) : List (World × Move) → World → Prop
  | nil : Trace allowed w [] w
  | step {h : List (World × Move)} {v u : World} (m : Move) (past : Trace allowed w h v)
    (may : allowed v m) (now : v.step m = some u) : Trace allowed w ((v, m) :: h) u

namespace Trace
variable {allowed : World → Move → Prop} {w v : World} {h : List (World × Move)}

theorem reachesBy (run : Trace allowed w h v) : ReachesBy allowed w v := by
  induction run with
  | nil => exact .refl _
  | step m _ may now ih => exact .step m ih may now

theorem of_reachesBy (run : ReachesBy allowed w v) : ∃ h, Trace allowed w h v := by
  induction run with
  | refl => exact ⟨_, .nil⟩
  | step m _ may now ih =>
    obtain ⟨h, past⟩ := ih
    exact ⟨_, .step m past may now⟩

theorem restrict {allowed' : World → Move → Prop} (run : Trace allowed w h v)
    (all : ∀ e ∈ h, allowed' e.1 e.2) : Trace allowed' w h v := by
  induction run with
  | nil => exact .nil
  | step m past _ now ih =>
    exact .step m (ih fun e there => all e (List.mem_cons_of_mem _ there))
      (all _ (List.mem_cons_self ..)) now

theorem split {u : World} {m : Move} (run : Trace allowed w h v) (past : (u, m) ∈ h) :
    ∃ h', h' ⊆ h ∧ Trace allowed w h' u ∧ u.Reaches v := by
  induction run with
  | nil => cases past
  | @step h z z' n before may now ih =>
    rcases List.mem_cons.mp past with same | older
    · cases same
      exact ⟨h, List.subset_cons_self .., before, .single now⟩
    · obtain ⟨h', sub, run', later⟩ := ih older
      exact ⟨h', fun e there => List.mem_cons_of_mem _ (sub there), run', later.trans (.single now)⟩

theorem all_allowed (run : Trace allowed w h v) : ∀ e ∈ h, allowed e.1 e.2 := by
  induction run with
  | nil => exact fun e there => absurd there List.not_mem_nil
  | step m _ may _ ih =>
    intro e there
    rcases List.mem_cons.mp there with rfl | there
    · exact may
    · exact ih e there

end Trace

theorem reaches_steps {w v : World} {ms : List Move} (h : w.steps ms = some v) : w.Reaches v := by
  induction ms generalizing w with
  | nil =>
    cases h
    exact .refl _
  | cons m ms ih =>
    obtain ⟨u, hu, rest⟩ := Option.bind_eq_some_iff.mp h
    exact .step m hu (ih rest)

/-- Some steps after one another, each checked before it is taken, with their history. -/
def checkedTrace (check : World → Move → Bool) (w : World) (h : List (World × Move)) :
    List Move → Option (List (World × Move) × World)
  | [] => some (h, w)
  | m :: ms =>
    if check w m then (w.step m).bind fun v => checkedTrace check v ((w, m) :: h) ms else none

theorem Trace.of_checkedTrace {allowed : World → Move → Prop} {check : World → Move → Bool}
    (sound : ∀ w m, check w m = true → allowed w m) {w v u : World} {h k : List (World × Move)}
    {ms : List Move} (past : Trace allowed w h v)
    (run : v.checkedTrace check h ms = some (k, u)) : Trace allowed w k u := by
  induction ms generalizing v h with
  | nil =>
    cases run
    exact past
  | cons m ms ih =>
    rw [checkedTrace] at run
    split at run
    · rename_i ok
      obtain ⟨z, hz, rest⟩ := Option.bind_eq_some_iff.mp run
      exact ih (.step m past (sound v m ok) hz) rest
    · cases run

/-- A shutdown of a worker has begun. -/
def Began (h : List (World × Move)) (s : Nat) : Prop :=
  ∃ w m v, (w, m) ∈ h ∧ w.step m = some v ∧ w.connection.worker = some s ∧
    w.connection.stopping = false ∧ v.connection.stopping = true

/-- A worker has made the connection initialized. -/
def Made (h : List (World × Move)) (s : Nat) : Prop :=
  ∃ w v, (w, .run (.worker s)) ∈ h ∧ w.step (.run (.worker s)) = some v ∧
    w.connection.state = .initializing ∧ v.connection.state = .initialized

section Histories
variable {w v : World} {m : Move} {h : List (World × Move)} {s : Nat}

theorem Began.later (began : Began h s) (e : World × Move) : Began (e :: h) s := by
  obtain ⟨w, m, v, inPast, rest⟩ := began
  exact ⟨w, m, v, List.mem_cons_of_mem _ inPast, rest⟩

theorem Made.later (made : Made h s) (e : World × Move) : Made (e :: h) s := by
  obtain ⟨w, v, inPast, rest⟩ := made
  exact ⟨w, v, List.mem_cons_of_mem _ inPast, rest⟩

/-- A handle that is no longer held was given up for a shutdown, or its worker had decided that the
connection does not come about. -/
theorem held_or_began {x : Worker} (owned : w.Owned) (now : w.step m = some v)
    (hx : w.workers[s]? = some x) (opening : x.stands = .initializing)
    (before : w.connection.worker = some s ∨ Began h s) :
    v.connection.worker = some s ∨ Began ((w, m) :: h) s := by
  obtain held | began := before
  · obtain ⟨-, calm, x', hx', -, stands⟩ := owned.held s held
    rw [hx] at hx'
    cases hx'
    have state : w.connection.state = .initializing := stands.symm.trans opening
    obtain same | ⟨t, f, rest, rfl, code, change⟩ :=
      (worldStep_of_step now).connectionStep
    · exact .inl (by rw [same, held])
    · generalize hc : v.connection = c at change
      cases change with
      | take cb state' | start cb calm state' =>
        rw [state] at state'
        cases state'
      | begin src a r calm' held' =>
        refine .inr ⟨w, _, v, List.mem_cons_self .., now, held, calm, ?_⟩
        rw [hc]
      | _ => exact .inl held
  · exact .inr (began.later _)

/-- Only a worker whose first refresh succeeded makes the connection initialized. -/
theorem made_step (now : w.step m = some v) (made : Made ((w, m) :: h) s) : Made h s ∨
    m = .run (.worker s) ∧ w.connection.state = .initializing ∧
      v.connection.state = .initialized := by
  obtain ⟨a, b, inPast, step, before, after⟩ := made
  rcases List.mem_cons.mp inPast with same | inPast
  · cases same
    rw [now] at step
    cases step
    exact .inr ⟨rfl, before, after⟩
  · exact .inl ⟨a, b, inPast, step, before, after⟩

theorem code_of_made (step : WorldStep w (.run (.worker s)) v)
    (before : w.connection.state = .initializing) (after : v.connection.state = .initialized) :
    ∃ rest, w.frames (.worker s) = .markInitialized :: rest := by
  obtain same | ⟨t, f, rest, here, code, change⟩ := step.connectionStep
  · rw [same, before] at after
    cases after
  · cases here
    generalize v.connection = c at change after
    cases change with
    | mark => exact ⟨rest, code⟩
    | keep | begin =>
      simp only [before] at after
      cases after
    | start | fail | finish | take => cases after

end Histories

end World

end RemoteNode.Session
