import RemoteNode.Proofs.Session.Bringing
import RemoteNode.Proofs.Session.Heights

/-! Who brings a fee address. A worker does, with the result of an operation, and nothing else but a
shutdown changes the address that is known. -/

namespace RemoteNode.Session

/-- The fee address that a frame brings. -/
def Frame.address? : Frame → Option String
  | conclude j result =>
    match j, result with
    | ⟨.feeAddress, _⟩, .ok address => some address
    | _, _ => none
  | _ => none

/-- The fee address that a worker brings in a move. -/
def brought? (s : Nat) : World × Move → Option String
  | (w, .run (.worker r)) =>
    if r = s then (w.frames (.worker s)).head?.bind Frame.address? else none
  | _ => none

/-- The fee address that a worker has brought last. -/
def lastBrought (s : Nat) (h : List (World × Move)) : Option String := h.findSome? (brought? s)

section Addresses
variable {w u v : World} {m : Move} {t : Thread} {s r : Nat} {f : Frame} {fs rest : List Frame}
  {address : String} {h : List (World × Move)}

theorem concludes_of_address (brings : f.address? = some address) : f.concludes = true := by
  cases f <;> first | rfl | cases brings

/-- Whoever brings an address runs the frame that has it. -/
theorem code_of_brought (brought : brought? s (w, m) = some address) : m = .run (.worker s) ∧
    ∃ f rest, w.frames (.worker s) = f :: rest ∧ f.address? = some address := by
  unfold brought? at brought
  split at brought
  · rename_i u r same
    cases same
    split at brought
    · rename_i here
      subst here
      obtain ⟨f, head, brings⟩ := Option.bind_eq_some_iff.mp brought
      obtain ⟨rest, code⟩ := List.head?_eq_some_iff.mp head
      exact ⟨rfl, f, rest, code, brings⟩
    · cases brought
  · cases brought

theorem lastBrought_of_none (nothing : brought? s (w, m) = none) :
    lastBrought s ((w, m) :: h) = lastBrought s h := by
  rw [lastBrought, List.findSome?_cons, nothing]
  rfl

theorem lastBrought_of_some (brought : brought? s (w, m) = some address) :
    lastBrought s ((w, m) :: h) = some address := by
  rw [lastBrought, List.findSome?_cons, brought]

theorem brought_none (quiet : ∀ t f rest, m = .run t → w.frames t = f :: rest → f.concludes = false)
    (s : Nat) : brought? s (w, m) = none := by
  cases brought : brought? s (w, m) with
  | none => rfl
  | some address =>
    obtain ⟨here, f, rest, code, brings⟩ := code_of_brought brought
    have silent := quiet _ f rest here code
    rw [concludes_of_address brings] at silent
    cases silent

/-- The end of a job keeps the address that it brings, if any. -/
theorem FrameStep.keeps_address (ran : FrameStep w t f u fs) (concludes : f.concludes = true) :
    u.feeAddress = f.address?.getD w.feeAddress ∧ u.connection = w.connection := by
  cases ran with
  | conclude j result address kept =>
    refine ⟨?_, rfl⟩
    obtain ⟨o, cb⟩ := j
    have kept := congrArg World.feeAddress kept
    cases o <;> cases result <;> exact kept.symm
  | own f s x x' c chain fs isHere hx own =>
    cases own <;> cases concludes
  | stray f own => cases f <;> cases own <;> cases concludes
  | _ => cases concludes

theorem FrameStep.forgets_address (ran : FrameStep w t .forgetFeeAddress u fs) :
    u.feeAddress = "" ∧ u.connection = w.connection := by
  cases ran with
  | forgetFeeAddress => exact ⟨rfl, rfl⟩
  | own f s x x' c chain fs isHere hx own => cases own
  | stray f own => cases own

/-- No other frame changes the address that is known. -/
theorem FrameStep.leaves_address (ran : FrameStep w t f u fs) (silent : f.concludes = false)
    (remembers : f ≠ .forgetFeeAddress) : u.feeAddress = w.feeAddress := by
  cases ran with
  | forgetFeeAddress => exact absurd rfl remembers
  | conclude => cases silent
  | register | unregister | unregisterAwait | notifyNobody | notify | delivered =>
    simp [World.record, World.setRegistry_eq, World.setDelivery_eq]
  | _ => rfl

/-- What a step does to the fee address. -/
inductive FeeStep (w : World) (m : Move) (v : World) : Prop
  | keep (same : v.feeAddress = w.feeAddress) (nothing : ∀ s, brought? s (w, m) = none)
    (remembers : ∀ t rest, m = .run t → w.frames t ≠ .forgetFeeAddress :: rest)
  /-- A shutdown forgets it. -/
  | forget (t : Thread) (rest : List Frame) (here : m = .run t)
    (code : w.frames t = .forgetFeeAddress :: rest) (now : v.feeAddress = "")
    (still : v.connection = w.connection) (nothing : ∀ s, brought? s (w, m) = none)
  /-- A worker brings another. -/
  | bring (s : Nat) (x : Worker) (f : Frame) (address : String) (here : m = .run (.worker s))
    (hx : w.workers[s]? = some x) (code : x.frames = [f]) (concludes : f.concludes = true)
    (brought : brought? s (w, m) = some address) (now : v.feeAddress = address)
    (still : v.connection = w.connection) (alone : ∀ r, r ≠ s → brought? r (w, m) = none)

/-- A worker that keeps a result brings the address that it is, if it is one. -/
theorem feeStep_of_concludes (serving : w.Serving) (code : w.frames t = f :: rest)
    (ran : FrameStep w t f u fs) (concludes : f.concludes = true) :
    FeeStep w (.run t) (u.setFrames t (fs ++ rest)) := by
  obtain ⟨now, same⟩ := ran.keeps_address concludes
  obtain ⟨s, x, rfl, hx, alone, -⟩ := serving.exists_worker code concludes
  have now : (u.setFrames (.worker s) (fs ++ rest)).feeAddress =
      f.address?.getD w.feeAddress := (feeAddress_setFrames ..).trans now
  have brings : brought? s (w, .run (.worker s)) = f.address? := by simp [brought?, code]
  have others (r : Nat) (other : r ≠ s) : brought? r (w, .run (.worker s)) = none := by
    simp [brought?, other.symm]
  cases address : f.address? with
  | none =>
    refine .keep (by rw [now, address]; rfl) (fun r => ?_) fun t rest' here code' => ?_
    · by_cases same : r = s
      · rw [same, brings, address]
      · exact others r same
    · cases here
      rw [code] at code'
      cases code'
      cases concludes
  | some a =>
    exact .bring s x f a rfl hx alone concludes (brings.trans address)
      (by rw [now, address]; rfl) ((connection_setFrames ..).trans same) others

theorem WorldStep.feeStep (serving : w.Serving) (step : WorldStep w m v) : FeeStep w m v := by
  cases m with
  | run t =>
    obtain ⟨f, rest, fs, u, code, ran, rfl, -⟩ := step.ran
    have head {f' : Frame} {rest' : List Frame} {t' : Thread} (here : Move.run t = .run t')
        (code' : w.frames t' = f' :: rest') : f' = f := by
      cases here
      rw [code] at code'
      exact (List.cons.inj code').1.symm
    cases concludes : f.concludes with
    | true => exact feeStep_of_concludes serving code ran concludes
    | false =>
      have nothing := brought_none (w := w) (m := .run t) fun t' f' rest' here code' =>
        (head here code') ▸ concludes
      by_cases forgets : f = .forgetFeeAddress
      · subst forgets
        obtain ⟨now, same⟩ := ran.forgets_address
        exact .forget t rest rfl code ((feeAddress_setFrames ..).trans now)
          ((connection_setFrames ..).trans same) nothing
      · refine .keep ?_ nothing fun t' rest' here code' => forgets (head here code').symm
        exact (feeAddress_setFrames ..).trans (ran.leaves_address concludes forgets)
  | call | release | reply | turn =>
    refine .keep ?_ (fun s => rfl) fun t rest here => by cases here
    cases step
    rfl

end Addresses

end RemoteNode.Session
