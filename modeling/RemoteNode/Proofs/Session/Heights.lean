import RemoteNode.Proofs.Session.Accepting
import RemoteNode.Proofs.Session.Results
import RemoteNode.Proofs.Session.Tracking

/-! Who changes what is known, and that the node's own height is never above the height it knows of.
A refresh raises the height that the node knows of before the node's own, so that only forgetting in
between could turn them round. -/

namespace RemoteNode.Session

/-- How a step changes what is known of the chain. -/
inductive ChainStep (w : World) (m : Move) (v : World) : Prop
  | keep (same : v.chain = w.chain) : ChainStep w m v
  | forget (t : Thread) (rest : List Frame) (here : m = .run t)
    (code : w.frames t = .forgetChain :: rest) (now : v.chain = .initial) : ChainStep w m v
  | write (s : Nat) (x x' : Worker) (f : Frame) (rest fs : List Frame) (c : Connection)
    (here : m = .run (.worker s)) (hx : w.workers[s]? = some x) (code : x.frames = f :: rest)
    (writes : f.writes = true) (own : OwnStep w x f x' c v.chain fs) : ChainStep w m v

namespace ChainView

theorem le_max_left (a b : UInt32) : a ≤ max a b := by
  change a ≤ if a ≤ b then b else a
  split
  · assumption
  · exact UInt32.le_refl a

theorem max_le {a b c : UInt32} (ha : a ≤ c) (hb : b ≤ c) : max a b ≤ c := by
  change (if a ≤ b then b else a) ≤ c
  split <;> assumption

end ChainView

section Chains
variable {w u v : World} {m : Move} {t : Thread} {s : Nat} {x x' y : Worker} {f : Frame}
  {fs rest : List Frame} {c : Connection} {chain : ChainView}

theorem WorldStep.chainStep (step : WorldStep w m v) : ChainStep w m v := by
  cases m with
  | run t =>
    obtain ⟨f, rest, fs, u, code, ran, rfl, -⟩ := step.ran
    have same := chain_setFrames u t (fs ++ rest)
    cases ran with
    | forgetChain => exact .forget t rest rfl code same
    | own f s x x' c chain fs here hx own =>
      subst here
      rw [frames_worker hx] at code
      cases writes : f.writes with
      | true => exact .write s x x' f rest fs c rfl hx code writes (same ▸ own)
      | false =>
        refine .keep (same.trans ?_)
        cases own <;> first | rfl | cases writes
    | register | unregister | unregisterAwait | notifyNobody | notify | delivered =>
      exact .keep (same.trans (by simp [World.record, World.setRegistry_eq, World.setDelivery_eq]))
    | _ => exact .keep same
  | call | release | reply | turn => cases step; exact .keep rfl

/-- A worker that writes to the chain has still to do so. -/
theorem writes_of_code (code : x.frames = f :: rest) (writes : f.writes = true) :
    x.writes = true := by
  have own : f.isOwn = true := by cases f <;> first | rfl | cases writes
  rw [Worker.writes, code, ownCode_own own, List.any_cons, writes, Bool.true_or]

/-- What is forgotten stays so while no worker writes. -/
theorem WorldStep.chain_initial (step : WorldStep w m v) (initial : w.chain = .initial)
    (quiet : ∀ s x, m = .run (.worker s) → w.workers[s]? = some x → x.writes = false) :
    v.chain = .initial := by
  cases step.chainStep with
  | keep same => rw [same, initial]
  | forget t rest here code now => exact now
  | write s x x' f rest fs c here hx code writes own =>
    have still := writes_of_code code writes
    rw [quiet s x here hx] at still
    cases still

theorem feeAddress_setFrames (u : World) (t : Thread) (fs : List Frame) :
    (u.setFrames t fs).feeAddress = u.feeAddress := by
  cases t <;> rfl

/-- Only a shutdown and the end of a job change the fee address. -/
theorem WorldStep.feeAddress (step : WorldStep w m v) : v.feeAddress = w.feeAddress ∨
    v.feeAddress = "" ∨ ∃ t f rest, m = .run t ∧ w.frames t = f :: rest ∧ f.concludes = true := by
  cases m with
  | run t =>
    obtain ⟨f, rest, fs, u, code, ran, rfl, -⟩ := step.ran
    rw [feeAddress_setFrames]
    cases ran with
    | forgetFeeAddress => exact .inr (.inl rfl)
    | conclude j r address h => exact .inr (.inr ⟨t, _, rest, rfl, code, rfl⟩)
    | register | unregister | unregisterAwait | notifyNobody | notify | delivered =>
      exact .inl (by simp [World.record, World.setRegistry_eq, World.setDelivery_eq])
    | _ => exact .inl rfl
  | call | release | reply | turn => cases step; exact .inl rfl

/-- A fee address that was forgotten stays so while no result is kept. -/
theorem WorldStep.feeAddress_empty (step : WorldStep w m v) (empty : w.feeAddress = "")
    (quiet : ∀ t f rest, m = .run t → w.frames t = f :: rest → f.concludes = false) :
    v.feeAddress = "" := by
  obtain same | empty' | ⟨t, f, rest, here, code, concludes⟩ := step.feeAddress
  · rw [same, empty]
  · exact empty'
  · rw [quiet t f rest here code] at concludes
    cases concludes

/-- An idle worker starts no refresh in the midst of it. -/
theorem TurnStep.not_heading {limit : Exchange.Timeout} {k : Turn} {es : List Entry}
    (step : TurnStep limit s x k y es) (idle : x.frames = []) (i : Command.NodeInfo) :
    ownCode y.frames ≠ [.noteHeight i] := by
  intro code
  obtain ⟨-, silent⟩ | ⟨b, -, now⟩ := step.accepted idle
  · have := silent (.noteHeight i)
      (by rw [← mem_ownCode rfl, code]; exact List.mem_singleton.mpr rfl)
    cases this
  · rw [now] at code
    cases b <;> cases code

/-- A refresh never lowers the height that the node knows of. -/
theorem OwnStep.known_le (own : OwnStep w x f x' c chain fs) :
    w.chain.knownHeight ≤ chain.knownHeight := by
  cases own with
  | noteKnown i => exact ChainView.le_max_left _ _
  | _ => exact UInt32.le_refl _

namespace World

/-- The node's height is not above the height it knows of, nor will it be when a worker that has
just raised the one raises the other. -/
structure Ordered (w : World) : Prop where
  le : w.chain.nodeHeight ≤ w.chain.knownHeight
  heading : ∀ (s : Nat) (x : Worker) (i : Command.NodeInfo), w.workers[s]? = some x →
    ownCode x.frames = [.noteHeight i] →
    i.height ≤ w.chain.knownHeight

namespace Ordered

theorem of_untouched (h : w.Untouched) : w.Ordered := by
  constructor
  · obtain ⟨n, timeout, transport, reaction, kept, rfl⟩ := h
    exact UInt32.le_refl _
  · intro s x i hx
    rw [h.workers] at hx
    cases hx

/-- What a worker does on its own course to come to the node's height is to raise the other. -/
theorem heading_own (h : x.OnCourse) (code : x.frames = f :: rest)
    (own : OwnStep w x f x' c chain fs) {i : Command.NodeInfo}
    (next : ownCode (fs ++ rest) = [.noteHeight i]) : i.height ≤ chain.knownHeight := by
  have course := h.course
  rw [code, ownCode_own own.isOwn] at course
  rw [ownCode_append] at next
  generalize x.phase = p, x.refreshing = q, x.refreshes = n, ownCode rest = o at course next
  have pushed : .noteHeight i ∉ ownCode fs := by
    rw [mem_ownCode rfl]
    cases own <;> simp
  have left : o = [.noteHeight i] := by
    cases hg : ownCode fs with
    | nil => simpa [hg] using next
    | cons g gs =>
      rw [hg, List.cons_append] at next
      obtain ⟨rfl, -⟩ := List.cons.inj next
      exact absurd (hg ▸ List.mem_cons_self ..) pushed
  subst left
  cases course with
  | refresh _ _ _ refresh =>
    cases refresh with
    | noteKnown j =>
      cases own with
      | noteKnown _ =>
        have : i.height ≤ highest i := ChainView.le_max _ _
        exact UInt32.le_trans this (ChainView.le_max _ _)

/-- A step keeps the heights in order, unless it forgets what a worker is about to complete. -/
theorem step (h : w.Ordered) (hs : w.Sound) (step : WorldStep w m v)
    (free : ∀ t rest, m = .run t → w.frames t = .forgetChain :: rest →
      ∀ (s : Nat) (x : Worker), w.workers[s]? = some x → x.writes = false) : v.Ordered := by
  constructor
  · cases step.chainStep with
    | keep same =>
      rw [same]
      exact h.le
    | forget t rest here code now =>
      rw [now]
      exact UInt32.le_refl _
    | write s x x' f rest fs c here hx code writes own =>
      generalize v.chain = chain at own
      cases own with
      | noteFee | notePeers | noteHeader => exact h.le
      | noteKnown i => exact UInt32.le_trans h.le (ChainView.le_max_left _ _)
      | noteHeight i =>
        have course := (hs.courses s x hx).course
        have heading := h.heading s x i hx
        rw [code, ownCode_own rfl] at course heading
        generalize x.phase = p, x.refreshing = q, x.refreshes = n, ownCode rest = o at *
        refine ChainView.max_le h.le ?_
        cases course with
        | refresh _ _ _ refresh =>
          cases refresh
          exact heading rfl
      | _ => cases writes
  · intro s y i hy code
    obtain ⟨x, hx, worker⟩ | ⟨-, t, cb, rest, -, -, rfl⟩ := step.cameFrom hy
    · -- either the worker was there already, or it has just raised the height the node knows of
      have before (same : ownCode x.frames = [.noteHeight i]) : i.height ≤ v.chain.knownHeight := by
        refine UInt32.le_trans (h.heading s x i hx same) ?_
        cases step.chainStep with
        | keep same =>
          rw [same]
          exact UInt32.le_refl _
        | forget t rest here code =>
          have writes := free t rest here code s x hx
          rw [Worker.writes, same] at writes
          cases writes
        | write r z x' f rest fs c here hz code writes own => exact own.known_le
      cases worker with
      | others y away touched => exact before (touched.frames ▸ code)
      | foreign f rest fs u y here hf ran notOwn touched =>
        rw [ran.ownCode_eq notOwn, ← hf] at code
        exact before code
      | own f rest fs x' c chain here hf own =>
        subst here
        obtain ⟨x'', c', chain', fs', own', same, hy'⟩ | ⟨rfl | rfl, -⟩ :=
          Pass.ran_own step hx hf own.isOwn
        · have frames : fs ++ rest = fs' ++ rest :=
            congrArg Worker.frames (Option.some.inj (hy.symm.trans hy'))
          change ownCode (fs ++ rest) = _ at code
          rw [frames] at code
          rw [same]
          exact heading_own (hs.courses s x hx) hf own' code
        · cases own
        · cases own
      | markFailed rest here hf | leave rest here hf =>
        have course := (hs.courses s x hx).course
        rw [hf, ownCode_own rfl] at course
        change ownCode rest = _ at code
        rw [code] at course
        generalize x.phase = p, x.refreshing = q, x.refreshes = n at course
        cases course with
        | refresh _ _ _ refresh => cases refresh
      | reply => exact before code
      | turn k y es here idle stays turn => exact absurd code (turn.not_heading idle i)
    · cases code

end Ordered

end World

end Chains

end RemoteNode.Session
