import RemoteNode.Proofs.Session.Course

/-! The shape of the code of a thread. What stops a worker runs in one piece: at most one such piece
is left on a thread, and it is on top. Elsewhere the chain is only forgotten right before a failure
is reported. -/

namespace RemoteNode.Session

/-- The frame is part of what stops a worker. -/
def Frame.stops : Frame → Bool
  | signal _ | join _ | forgetFeeAddress | finishShutdown => true
  | _ => false

/-- What a shutdown runs to stop a worker and to forget what it found. -/
def shutdownCode (r : Nat) : List Frame :=
  [.signal r, .join r, .forgetChain, .forgetFeeAddress, .finishShutdown]

/-- What is next when so much of a shutdown has run. -/
theorem shutdownCode_next {r k : Nat} {f : Frame} {fs rest : List Frame} (left : k < 5)
    (h : f :: rest = (shutdownCode r).drop k ++ fs) :
    rest = (shutdownCode r).drop (k + 1) ++ fs ∧
      (k = 0 ∧ f = .signal r ∨ k = 1 ∧ f = .join r ∨ k = 2 ∧ f = .forgetChain ∨
        k = 3 ∧ f = .forgetFeeAddress ∨ k = 4 ∧ f = .finishShutdown) := by
  match k, left with
  | 0, _ | 1, _ | 2, _ | 3, _ | 4, _ =>
    obtain ⟨rfl, rfl⟩ := List.cons.inj h
    exact ⟨rfl, by simp⟩

/-- Code that stops no worker. -/
inductive Plain : List Frame → Prop
  | nil : Plain []
  | cons (f : Frame) (fs : List Frame) (stays : f.stops = false) (keeps : f ≠ .forgetChain)
    (rest : Plain fs) : Plain (f :: fs)
  | fail (fs : List Frame) (rest : Plain fs) : Plain (.forgetChain :: .markFailed :: fs)

namespace Plain
variable {w u : World} {t : Thread} {f : Frame} {fs gs : List Frame}

theorem tail (h : Plain (f :: fs)) : Plain fs := by
  cases h with
  | cons _ _ _ _ rest => exact rest
  | fail fs rest => exact .cons _ _ rfl (by simp) rest

theorem append (h : Plain fs) (k : Plain gs) : Plain (fs ++ gs) := by
  induction h with
  | nil => exact k
  | cons f fs stays keeps _ ih => exact .cons f _ stays keeps ih
  | fail fs _ ih => exact .fail _ ih

theorem stays (h : Plain fs) (hf : f ∈ fs) : f.stops = false := by
  induction h with
  | nil => cases hf
  | cons g fs stays keeps _ ih =>
    rcases List.mem_cons.mp hf with rfl | hf
    · exact stays
    · exact ih hf
  | fail fs _ ih =>
    rcases List.mem_cons.mp hf with rfl | hf
    · rfl
    · rcases List.mem_cons.mp hf with rfl | hf
      · rfl
      · exact ih hf

theorem of_forall (h : ∀ f ∈ fs, f.stops = false ∧ f ≠ .forgetChain) : Plain fs := by
  induction fs with
  | nil => exact .nil
  | cons f fs ih =>
    obtain ⟨stays, keeps⟩ := h f (by simp)
    exact .cons f fs stays keeps (ih fun g hg => h g (by simp [hg]))

theorem forgetChain (h : Plain (.forgetChain :: fs)) : ∃ gs, fs = .markFailed :: gs ∧ Plain gs := by
  cases h with
  | cons _ _ _ keeps _ => exact absurd rfl keeps
  | fail gs rest => exact ⟨gs, rfl, rest⟩

theorem markFailed_mem (h : Plain fs) (forgets : .forgetChain ∈ fs) : .markFailed ∈ fs := by
  induction h with
  | nil => cases forgets
  | cons f fs stays keeps _ ih =>
    rcases List.mem_cons.mp forgets with same | forgets
    · exact absurd same.symm keeps
    · exact List.mem_cons_of_mem _ (ih forgets)
  | fail fs _ ih => exact List.mem_cons_of_mem _ (List.mem_cons_self ..)

theorem own {x x' : Worker} {c : Connection} {chain : ChainView}
    (step : OwnStep w x f x' c chain fs) : Plain fs := by
  cases step with
  | lost => exact .cons _ _ rfl (by simp) (.fail _ (.of_forall (by simp [Frame.stops])))
  | notePeers | noteKnown | noteHeader | notePool =>
    split <;> exact .of_forall (by simp [Frame.stops])
  | _ => exact .of_forall (by simp [Frame.stops])

theorem turn {p : Phase} (code : TurnCode p fs) : Plain fs := by
  cases code with
  | refresh fs code => cases code <;> exact .of_forall (by simp [Frame.stops])
  | _ => exact .of_forall (by simp [Frame.stops])

end Plain

/-- The code of a thread: plain, or with what is left of stopping a worker on top. -/
inductive Stack : List Frame → Prop
  | plain (fs : List Frame) (h : Plain fs) : Stack fs
  | stale (r : Nat) (fs : List Frame) (h : Plain fs) : Stack (.signal r :: .join r :: fs)
  | staleJoin (r : Nat) (fs : List Frame) (h : Plain fs) : Stack (.join r :: fs)
  | closing (r k : Nat) (fs : List Frame) (left : k < 5) (h : Plain fs) :
    Stack ((shutdownCode r).drop k ++ fs)

namespace Stack
variable {w u v : World} {m : Move} {t : Thread} {f : Frame} {fs rest : List Frame}

theorem pushed (step : FrameStep w t f u fs) (stays : f.stops = false) :
    Plain fs ∨ (∃ cb s, f = .takeStale cb ∧ fs = [.signal s, .join s, .start cb]) ∨
      ∃ src a s, f = .beginShutdown src a ∧
        fs = shutdownCode s ++ [.returning src a (.flag true)] := by
  cases step with
  | takeStale cb s => exact .inr (.inl ⟨cb, s, rfl, rfl⟩)
  | beginShutdown src a s => exact .inr (.inr ⟨src, a, s, rfl, rfl⟩)
  | own f s x x' c chain fs isHere hx h => exact .inl (.own h)
  | _ => exact .inl (.of_forall (by simp [Frame.stops]))

theorem pushed_of_stops (step : FrameStep w t f u fs) (stops : f.stops = true) : fs = [] := by
  cases step with
  | own f s x x' c chain fs isHere hx h => cases h <;> cases stops
  | _ => first | rfl | cases stops

theorem pushed_forgetChain (step : FrameStep w t .forgetChain u fs) : fs = [] := by
  cases step with
  | own f s x x' c chain fs isHere hx h => cases h
  | _ => rfl

theorem pushed_of_shutdown {r k : Nat} {gs : List Frame} (left : k < 5)
    (code : f :: rest = (shutdownCode r).drop k ++ gs) (step : FrameStep w t f u fs) : fs = [] := by
  obtain ⟨-, next⟩ := shutdownCode_next left code
  obtain ⟨-, rfl⟩ | ⟨-, rfl⟩ | ⟨-, rfl⟩ | ⟨-, rfl⟩ | ⟨-, rfl⟩ := next
  · exact pushed_of_stops step rfl
  · exact pushed_of_stops step rfl
  · exact pushed_forgetChain step
  · exact pushed_of_stops step rfl
  · exact pushed_of_stops step rfl

theorem run (h : Stack (f :: rest)) (step : FrameStep w t f u fs) : Stack (fs ++ rest) := by
  generalize hg : f :: rest = code at h
  cases h with
  | plain _ h =>
    subst hg
    have stays := h.stays (List.mem_cons_self ..)
    obtain plain | ⟨cb, s, rfl, rfl⟩ | ⟨src, a, s, rfl, rfl⟩ := pushed step stays
    · exact .plain _ (plain.append h.tail)
    · exact .stale s _ (.cons _ _ rfl (by simp) h.tail)
    · exact .closing s 0 _ (by omega) (.cons _ _ rfl (by simp) h.tail)
  | stale r fs h =>
    cases hg
    rw [pushed_of_stops step rfl]
    exact .staleJoin r _ h
  | staleJoin r fs h =>
    cases hg
    rw [pushed_of_stops step rfl]
    exact .plain _ h
  | closing r k gs left h =>
    rw [pushed_of_shutdown left hg step]
    obtain ⟨rfl, -⟩ := shutdownCode_next left hg
    by_cases last : k + 1 < 5
    · exact .closing r (k + 1) gs last h
    · have : k = 4 := by omega
      subst this
      exact .plain _ h

/-- Whatever a step means to the code of a thread, it keeps its shape. -/
theorem step {fs gs : List Frame} (h : Stack fs) (step : ThreadStep w m v t fs gs) :
    Stack gs := by
  cases step with
  | same => exact h
  | run f rest fs u here code step => exact h.run step
  | call | release => exact .plain _ (.of_forall (by simp [Frame.stops]))
  | started => exact .plain _ (.of_forall (by simp [Frame.stops]))
  | turn s k x x' es here turn hx idle step => exact .plain _ (.turn (step.code idle))

theorem plain_of_head (h : Stack (f :: rest)) (stays : f.stops = false) (keeps : f ≠ .forgetChain) :
    Plain (f :: rest) := by
  generalize hg : f :: rest = code at h
  cases h with
  | plain _ h => exact h
  | stale | staleJoin =>
    obtain ⟨rfl, -⟩ := List.cons.inj hg
    cases stays
  | closing r k gs left h =>
    obtain ⟨-, next⟩ := shutdownCode_next left hg
    obtain ⟨-, rfl⟩ | ⟨-, rfl⟩ | ⟨-, rfl⟩ | ⟨-, rfl⟩ | ⟨-, rfl⟩ := next
    all_goals first | exact absurd rfl keeps | cases stays

/-- Code that stops a worker comes from a call that takes or shuts down a worker. -/
theorem source {fs gs : List Frame} (step : ThreadStep w m v t fs gs) (stops : f.stops = true)
    (hf : f ∈ gs) : f ∈ fs ∨
      (∃ cb s rest, m = .run t ∧ fs = .takeStale cb :: rest ∧ f ∈ [.signal s, .join s]) ∨
      ∃ src a s rest, m = .run t ∧ fs = .beginShutdown src a :: rest ∧ f ∈ shutdownCode s := by
  have none {fs : List Frame} (plain : Plain fs) (hf : f ∈ fs) : False := by
    rw [plain.stays hf] at stops
    cases stops
  have inner : f.isPushed = true := by
    cases f <;> first | rfl | cases stops
  obtain old | ⟨g, rest, u, new, here, rfl, ran, hf⟩ := step.source inner hf
  · exact .inl old
  · cases hg : g.stops with
    | true =>
      rw [pushed_of_stops ran hg] at hf
      cases hf
    | false =>
      obtain plain | ⟨cb, s, rfl, rfl⟩ | ⟨src, a, s, rfl, rfl⟩ := pushed ran hg
      · exact (none plain hf).elim
      · refine .inr (.inl ⟨cb, s, rest, here, rfl, ?_⟩)
        simp only [List.mem_cons, List.not_mem_nil, or_false] at hf ⊢
        obtain rfl | rfl | rfl := hf
        · exact .inl rfl
        · exact .inr rfl
        · cases stops
      · refine .inr (.inr ⟨src, a, s, rest, here, rfl, ?_⟩)
        rcases List.mem_append.mp hf with hf | hf
        · exact hf
        · rw [List.mem_singleton.mp hf] at stops
          cases stops

end Stack

/-- Every worker is on its course, callers have no code of one, and all code has its shape. -/
structure World.Sound (w : World) : Prop where
  courses : ∀ (s : Nat) (x : Worker), w.workers[s]? = some x → x.OnCourse
  callers : ∀ n, ownCode (w.frames (.caller n)) = []
  stacked : ∀ t, Stack (w.frames t)

namespace World.Sound
variable {w v : World} {m : Move}

theorem of_untouched (h : w.Untouched) : w.Sound := by
  refine ⟨fun s x hx => ?_, fun k => by rw [h.frames]; rfl, fun t => ?_⟩
  · rw [h.workers] at hx
    cases hx
  · rw [h.frames]
    exact .plain _ .nil

theorem step (h : w.Sound) (step : WorldStep w m v) : v.Sound := by
  constructor
  · intro s y hy
    obtain ⟨x, hx, step⟩ | ⟨-, t, cb, rest, -, -, rfl⟩ := step.cameFrom hy
    · exact (h.courses s x hx).step step
    · exact .new cb
  · intro n
    have before := h.callers n
    have code := step.threadStep (.caller n)
    generalize w.frames (.caller n) = fs, v.frames (.caller n) = gs at before code
    cases code with
    | same => exact before
    | run f rest fs u here code step =>
      cases own : f.isOwn with
      | true => simp [ownCode_own own] at before
      | false =>
        rwa [step.ownCode_eq own]
    | call | release => rfl
    | started r cb rest here => cases here
    | turn s k x x' es here => cases here
  · exact fun t => (h.stacked t).step (step.threadStep t)

theorem worker_of_mem {t : Thread} {f : Frame} (hs : w.Sound) (own : f.isOwn = true)
    (there : f ∈ w.frames t) : ∃ s x, t = .worker s ∧ w.workers[s]? = some x := by
  cases t with
  | caller n =>
    rw [← mem_ownCode own, hs.callers n] at there
    cases there
  | worker s =>
    cases hx : w.workers[s]? with
    | none => simp [World.frames, hx] at there
    | some x => exact ⟨s, x, rfl, hx⟩

/-- What is known of the chain is forgotten by a shutdown, or right before a failure is reported. -/
theorem forgetting_cases {t : Thread} {rest : List Frame} (hs : w.Sound)
    (code : w.frames t = .forgetChain :: rest) : .finishShutdown ∈ rest ∨
      ∃ s x gs, t = .worker s ∧ w.workers[s]? = some x ∧ rest = .markFailed :: gs := by
  have stack := hs.stacked t
  rw [code] at stack
  generalize hg : Frame.forgetChain :: rest = gs at stack
  cases stack with
  | plain _ plain =>
    subst hg
    obtain ⟨gs, rfl, -⟩ := plain.forgetChain
    obtain ⟨s, x, rfl, hx⟩ := hs.worker_of_mem (f := .markFailed) rfl (by rw [code]; simp)
    exact .inr ⟨s, x, gs, rfl, hx, rfl⟩
  | stale | staleJoin => cases hg
  | closing r k gs left plain =>
    obtain ⟨below, next⟩ := shutdownCode_next left hg
    obtain rfl : k = 2 := by simpa using next
    left
    rw [below]
    simp [shutdownCode]

/-- All worlds that can be reached are sound. -/
theorem of_reaches (first : w.Untouched) (h : w.Reaches v) : v.Sound :=
  h.keeps (of_untouched first) fun _ _ _ h => h.step

end World.Sound

end RemoteNode.Session
