import RemoteNode.Proofs.Session.Dialogues
import RemoteNode.Proofs.Session.Fees
import RemoteNode.Proofs.Session.Operating
import RemoteNode.Proofs.Session.Readiness

/-! Operations do not disturb each other. Whatever else goes on, an operation is given what its
procedure comes to when it runs alone on the replies to its own requests, or it is interrupted; it
changes nothing that is known of the chain or of the pool; and the fee address is what the worker of
the session has brought last. -/

namespace RemoteNode.Session

/-- A worker has concluded a job with success. -/
def Concluded (h : List (World × Move)) (j : Job) (value : j.operation.Result) : Prop :=
  ∃ u s rest, (u, .run (.worker s)) ∈ h ∧ u.frames (.worker s) = .conclude j (.ok value) :: rest

theorem Concluded.later {h : List (World × Move)} {j : Job} {value : j.operation.Result}
    (done : Concluded h j value) (e : World × Move) : Concluded (e :: h) j value := by
  obtain ⟨u, s, rest, past, code⟩ := done
  exact ⟨u, s, rest, List.mem_cons_of_mem _ past, code⟩

namespace World

/-- Every operation that has succeeded was concluded by a worker. -/
structure Concluding (h : List (World × Move)) (w : World) : Prop where
  code : ∀ t cb o value, .complete cb (.operation o (.ok value)) ∈ w.frames t →
    Concluded h ⟨o, cb⟩ value
  told : ∀ cb o value b, .completed cb (.operation o (.ok value)) b ∈ w.log →
    Concluded h ⟨o, cb⟩ value

namespace Concluding
variable {w u v : World} {m : Move} {t : Thread} {f : Frame} {fs rest : List Frame}
  {h : List (World × Move)} {cb : Callback} {o : Operation} {value : o.Result}

/-- A success that a frame is about to tell is what a worker has concluded. -/
theorem pushed (serving : w.Serving) (code : w.frames t = f :: rest) (ran : FrameStep w t f u fs)
    (here : .complete cb (.operation o (.ok value)) ∈ fs) :
    Concluded ((w, .run t) :: h) ⟨o, cb⟩ value := by
  cases ran with
  | conclude j result address kept =>
    obtain ⟨s, -, rfl, -⟩ := serving.exists_worker code rfl
    obtain ⟨o', cb'⟩ := j
    cases List.mem_singleton.mp here
    exact ⟨w, s, rest, List.mem_cons_self .., code⟩
  | refuse j e nobody | tooLate s j closed =>
    cases List.mem_singleton.mp here
  | own f s x x' c chain fs isHere hx own =>
    cases own <;> simp at here
  | _ => simp at here

theorem step (conc : Concluding h w) (serving : w.Serving) (step : WorldStep w m v) :
    Concluding ((w, m) :: h) v := by
  constructor
  · intro t cb o value inCode
    have thread := step.threadStep t
    generalize hw : w.frames t = code, v.frames t = code' at thread inCode
    cases thread with
    | same => exact (conc.code t cb o value (hw ▸ inCode)).later _
    | run f rest fs u here _ ran result =>
      rcases List.mem_append.mp inCode with new | old
      · subst here
        exact pushed serving hw ran new
      · exact (conc.code t cb o value (by rw [hw]; exact List.mem_cons_of_mem _ old)).later _
    | call | release | started => simp at inCode
    | turn s k x x' es here turn hx idle taken =>
      exfalso
      have code := taken.code idle
      generalize x'.frames = fs at code inCode
      cases code with
      | refresh fs code => cases code <;> simp at inCode
      | reject j => cases List.mem_singleton.mp inCode
      | _ => simp at inCode
  · intro cb o value b here
    obtain old | ⟨t, rest, rfl, code⟩ := completed_source step here
    · exact (conc.told cb o value b old).later _
    · exact (conc.code t cb o value (by rw [code]; exact List.mem_cons_self ..)).later _

/-- Wherever a run leads, every operation that has succeeded was concluded by a worker. -/
theorem of_trace {allowed : World → Move → Prop} {w₀ : World} (first : w₀.Untouched)
    (run : Trace allowed w₀ h w) : Concluding h w := by
  suffices all : w.Serving ∧ Concluding h w from all.2
  induction run with
  | nil =>
    refine ⟨.of_untouched first, ⟨fun t cb o value inCode => ?_, fun cb o value b here => ?_⟩⟩
    · rw [first.frames] at inCode
      cases inCode
    · rw [first.log] at here
      cases here
  | step m past may now ih =>
    have step := worldStep_of_step now
    exact ⟨ih.1.step step, ih.2.step ih.1 step⟩

end Concluding

/-- Operations disturb neither each other nor the refreshes, and the fee address is theirs alone. -/
structure Undisturbed (h : List (World × Move)) (w : World) : Prop where
  /-- What an operation is given is what its procedure comes to when it runs alone on the replies to
  its own requests, one request after the other; or its worker was told to stop while it had the
  operation or was being brought it, or it was never brought to a worker that serves. -/
  given : ∀ cb o result b, .completed cb (.operation o result) b ∈ w.log →
    Given w.timeout h w.log cb o result
  /-- What it comes to is what the procedure results in where each request has the outcome of its
  reply. -/
  alone : ∀ cb o result b reply, .completed cb (.operation o result) b ∈ w.log →
    o.procedure.LeadsTo w.timeout (dialogue cb.ticket w.log) (.done result) →
    (∀ i r, (repliesOf (dialogue cb.ticket w.log))[i]? = some r →
      ∃ a, r = .arrival a ∧ ∀ c q, reply i c q = answer c w.timeout a) →
    o.procedure.run reply 0 = result
  /-- The first request that fails ends the operation, and its failure is what it comes to. -/
  fails : ∀ cb o result b before rest c q a e, .completed cb (.operation o result) b ∈ w.log →
    o.procedure.LeadsTo w.timeout (dialogue cb.ticket w.log) (.done result) →
    dialogue cb.ticket w.log = before ++ .request c q :: .reply (.arrival a) :: rest →
    answer c w.timeout a = .error e → rest = [] ∧ result = .error (.ofExchange e)
  /-- What is left of an operation that a worker has is what its procedure alone has left after what
  was said for it. -/
  underway : ∀ (s : Nat) (x : Worker) (j : Job) (p : Procedure j.operation.Result),
    w.workers[s]? = some x → .job j p ∈ x.tasks →
    j.operation.procedure.LeadsTo w.timeout (dialogue j.callback.ticket w.log) p ∨
      j.operation.procedure.Awaits w.timeout (dialogue j.callback.ticket w.log) p
  /-- What a worker has not finished when it is told to stop, or is still brought, is
  interrupted. -/
  interrupted : ∀ s x j, w.workers[s]? = some x → x.stopped = true →
    x.Holds j ∨ (∃ t, .enqueue s j ∈ w.frames t) →
    w.Gives j.callback.ticket (j.outcome (.error .interrupted))
  /-- A worker that has ended without being told to stop never had a session. -/
  unready : ∀ (s : Nat) (x z : Worker) (u : World) (m : Move), w.workers[s]? = some x →
    x.phase = .ended → x.stopped = false → (u, m) ∈ h → u.workers[s]? = some z → ¬z.HasPassed
  /-- Operations are brought to such a worker only where one shut itself down before it settled. -/
  prompt : (∀ e ∈ h, e.1.Orderly e.2) → ∀ (u : World) (t : Thread) (s : Nat) (j : Job) (x : Worker)
    (rest : List Frame), (u, .run t) ∈ h → u.frames t = .enqueue s j :: rest →
    u.workers[s]? = some x → x.HasPassed ∨ x.stopped = true
  /-- No step of an operation changes what is known of the chain, the connection, what a worker
  remembers or its refreshes. -/
  spares : ∀ m v, w.step m = some v → w.Operates m → w.Spares v
  /-- Only what a refresh has learnt, a failure to connect and a shutdown change what is known of
  the chain. -/
  chain : ∀ m v, w.step m = some v → v.chain ≠ w.chain →
    ∃ t f rest, m = .run t ∧ w.frames t = f :: rest ∧ (f.writes = true ∨ f = .forgetChain)
  /-- Only what a refresh has learnt changes the transactions that a worker knows. -/
  known : ∀ m v (s : Nat) (x y : Worker), w.step m = some v → w.workers[s]? = some x →
    v.workers[s]? = some y → y.memory.known ≠ x.memory.known →
    ∃ c rest, m = .run (.worker s) ∧ x.frames = .notePool c :: rest
  /-- While a worker has the session, the fee address is the one that it has brought last. -/
  fee : ∀ s, w.connection.worker = some s → w.feeAddress = (lastBrought s h).getD ""
  /-- While a session is shut down, so it is until it is forgotten at the end. -/
  feeEnding : w.connection.stopping = true → ∃ s, w.connection.running = some s ∧
    (w.feeAddress = (lastBrought s h).getD "" ∨
      w.feeAddress = "" ∧ ∃ t rest, w.frames t = .finishShutdown :: rest)
  /-- Where there is no session, there is none. -/
  feeNone : w.connection.worker = none → w.connection.stopping = false → w.feeAddress = ""
  /-- Every operation that was given an address has brought it. -/
  credited : ∀ cb address b, .completed cb (.operation .feeAddress (.ok address)) b ∈ w.log →
    ∃ u s rest, (u, .run (.worker s)) ∈ h ∧
      u.frames (.worker s) = .conclude ⟨.feeAddress, cb⟩ (.ok address) :: rest ∧
      brought? s (u, .run (.worker s)) = some address

/-- Wherever a run leads, operations do not disturb each other. -/
theorem undisturbed_of_trace {allowed : World → Move → Prop} {w₀ w : World}
    {h : List (World × Move)} (first : w₀.Untouched) (run : Trace allowed w₀ h w) :
    w.Undisturbed h := by
  have conversing := Conversing.of_trace first run
  have sourced := Sourced.of_trace first run
  refine ⟨conversing.given, fun cb o result b reply _ said outcomes => ?_,
    fun cb o result b before rest c q a e _ said code fails => said.ends code fails, ?_, ?_,
    fun s x z u m hx ended going past hz => run.unready first hx ended going past hz, ?_,
    fun m v now operates => (worldStep_of_step now).spares operates,
    fun m v now changed => (worldStep_of_step now).chain_writer changed,
    fun m v s x y now hx hy changed => (worldStep_of_step now).known_writer hx hy changed,
    fun s held => (sourced.held s held).2.2.1, ?_, sourced.vacant, ?_⟩
  · exact Procedure.run_of_left said.left fun i r hr => by simpa using outcomes i r hr
  · intro s x j p hx there
    have speaks := conversing.workers s x hx
    rcases List.mem_append.mp there with ready | waits
    · obtain ⟨⟨task, r⟩, inReady, rfl⟩ := List.mem_map.mp ready
      exact (speaks.ready _ r inReady).left
    · exact .inr (speaks.waiting _ waits)
  · intro s x j hx stopped has
    refine Pledged.gives first run.reachesBy.reaches ?_
    obtain holds | ⟨t, sending⟩ := has
    · exact .held s x j rfl rfl hx stopped holds
    · exact .sending t s x j rfl rfl sending hx stopped
  · intro orderly u t s j x rest past code hx
    obtain ⟨h', -, before, -⟩ := (run.restrict orderly).split past
    have ready := (Prompt.of_reaches first before.reachesBy).wasReady hx
      (.inr ⟨t, by rw [code]; exact List.mem_cons_self ..⟩)
    exact ready.imp_right fun ended => ended.2.1
  · intro stopping
    obtain ⟨t, r, k, ending, fee⟩ := sourced.closing stopping
    refine ⟨r, ending.running, ?_⟩
    split at fee
    · exact .inl fee
    · obtain ⟨f, rest, code⟩ := ending.halting.head
      have last : k = 4 := by have := ending.halting.left; omega
      obtain rfl : f = .finishShutdown := by simpa [last] using ending.next code
      exact .inr ⟨fee, t, rest, code⟩
  · intro cb address b told
    obtain ⟨u, s, rest, past, code⟩ := (Concluding.of_trace first run).told cb _ address b told
    exact ⟨u, s, rest, past, code, by simp [brought?, code, Frame.address?]⟩

/-- The node's fee address. -/
def feeBody : List UInt8 := bytesOf ["\x7b\"status\":\"OK\",", "\"fee_address\":\"abc\"\x7d"]

/-- The node's height. -/
def heightBody : List UInt8 := bytesOf ["\x7b\"status\":\"OK\",\"height\":7\x7d"]

/-- A caller asks for the fee address and for the height while a refresh is under way. The node
answers the second request first, and the refresh before and after the other. -/
def interleaved : Option World := do
  let w ← asked .feeAddress []
  let w ← (w.perform 0 (.operate "height" .height []) 40).replies 2 [heightBody]
  w.replies 0 [infoBody, feeBody, poolBody]

/-- Who was answered: an operation by its ticket, or a refresh. -/
def answeredTo : Entry → Option (Option Nat)
  | .answered _ (.job j _) _ => some (some j.callback.ticket)
  | .answered _ (.refresh _) _ => some none
  | _ => none

/-- An operation was told of the address, or of the height. -/
def tellsAnswer : Entry → Option Nat
  | .completed cb (.operation .feeAddress (.ok "abc")) _ => some cb.ticket
  | .completed cb (.operation .height (.ok 7)) _ => some cb.ticket
  | _ => none

set_option maxRecDepth 20000 in
/-- Both operations are given what the node has answered to them, and so it goes on with the
refresh. -/
theorem undisturbed_interleaved : ∃ h w, Trace (fun _ _ => True) (initial 1 .standard) h w ∧
    interleaved = some w ∧
    w.log.filterMap answeredTo = [none, some 1, none, some 2, none, none, none] ∧
    w.log.filterMap tellsAnswer = [1, 2] ∧ w.feeAddress = "abc" ∧ w.Undisturbed h := by
  have found : interleaved.any (fun w =>
      w.log.filterMap answeredTo = [none, some 1, none, some 2, none, none, none] &&
        w.log.filterMap tellsAnswer = [1, 2] && w.feeAddress = "abc") = true := by decide +kernel
  obtain ⟨w, hw, found⟩ := (Option.any_eq_true ..).mp found
  simp only [Bool.and_eq_true, decide_eq_true_eq] at found
  obtain ⟨⟨order, told⟩, address⟩ := found
  have reached := hw
  simp only [interleaved, Option.bind_eq_bind, Option.bind_eq_some_iff] at reached
  obtain ⟨v, first, u, second, last⟩ := reached
  have both := (reaches_asked first).trans (reaches_perform v 0 (.operate "height" .height []) 40)
  obtain ⟨h, run⟩ := Trace.of_reachesBy
    (.of_reaches ((both.trans (reaches_replies second)).trans (reaches_replies last)))
  exact ⟨h, w, run, hw, order, told, address,
    undisturbed_of_trace ⟨1, .standard, true, _, [], rfl⟩ run⟩

end World

end RemoteNode.Session
