import RemoteNode.Proofs.Session.Outcomes

/-! Who waits for whom. Only the worker that runs tells observers, and while it does it waits for
nobody; a worker waits only for later workers; a shutdown on the thread of a caller waits for its
worker alone. Hence threads never wait in a circle, in runs in which no worker shuts down. -/

namespace RemoteNode.Session

/-- The frame tells observers something or is about to. -/
def Frame.tells : Frame → Bool
  | notify _ | deliver _ _ => true
  | _ => false

/-- The frame tells observers something. -/
def Frame.delivers : Frame → Bool
  | deliver _ _ => true
  | _ => false

/-- The frame may still lead to something that observers are told. -/
def Frame.mayTell : Frame → Bool
  | notify _ | deliver _ _ | setConnected _ => true
  | _ => false

/-- Nothing is told below the own code of a worker, and nothing is being told below what is about to
be told. -/
def Layered : List Frame → Prop
  | [] => True
  | f :: fs => (f.isOwn = true → ∀ g ∈ fs, g.tells = false) ∧
      (∀ n, f = .notify n → ∀ g ∈ fs, g.delivers = false) ∧ Layered fs

namespace World

/-- The thread of a worker does not begin a shutdown. -/
def OffThread (w : World) (m : Move) : Prop :=
  ∀ s src a rest, m = .run (.worker s) → w.frames (.worker s) ≠ .beginShutdown src a :: rest

/-- Tells whether a move begins no shutdown on the thread of a worker. -/
def isOffThread (w : World) : Move → Bool
  | .run (.worker s) =>
    match w.frames (.worker s) with
    | .beginShutdown _ _ :: _ => false
    | _ => true
  | _ => true

theorem offThread_of_isOffThread {w : World} {m : Move} (h : w.isOffThread m = true) :
    w.OffThread m := by
  rintro s src a rest rfl code
  rw [isOffThread, code] at h
  cases h

theorem OffThread.orderly {w : World} {m : Move} (h : w.OffThread m) : w.Orderly m :=
  fun r src a rest _ here code _ _ => absurd code (h r src a rest here)

end World

section Layers
variable {w u v : World} {m : Move} {t : Thread} {f : Frame} {fs gs rest : List Frame} {s r : Nat}
  {x y : Worker}

theorem Layered.of_plain (h : ∀ f ∈ fs, f.isOwn = false ∧ ∀ n, f ≠ .notify n) (k : Layered gs) :
    Layered (fs ++ gs) := by
  induction fs with
  | nil => exact k
  | cons f fs ih =>
    obtain ⟨foreign, silent⟩ := h f (List.mem_cons_self ..)
    refine ⟨fun own => ?_, fun n same => absurd same (silent n),
      ih fun g hg => h g (List.mem_cons_of_mem _ hg)⟩
    rw [foreign] at own
    cases own

/-- What is pushed on a layer that tells nothing only has to be layered itself. -/
theorem Layered.append (h : Layered fs) (k : Layered gs) (none : ∀ g ∈ gs, g.tells = false) :
    Layered (fs ++ gs) := by
  have silent {g : Frame} (hg : g ∈ gs) : g.delivers = false := by
    have := none g hg
    cases g <;> first | rfl | cases this
  induction fs with
  | nil => exact k
  | cons f fs ih =>
    obtain ⟨own, told, rest⟩ := h
    refine ⟨fun isOwn g hg => ?_, fun n same g hg => ?_, ih rest⟩
    · rcases List.mem_append.mp hg with hg | hg
      · exact own isOwn g hg
      · exact none g hg
    · rcases List.mem_append.mp hg with hg | hg
      · exact told n same g hg
      · exact silent hg

/-- What a worker pushes on its own course is layered, and nothing is being told in it. -/
theorem OwnStep.layered {x' : Worker} {c : Connection} {chain : ChainView}
    (step : OwnStep w x f x' c chain fs) : Layered fs ∧ ∀ g ∈ fs, g.delivers = false := by
  cases step with
  | notePeers | noteKnown | noteHeader | notePool =>
    split <;> simp [Layered, Frame.isOwn, Frame.tells, Frame.delivers]
  | _ => simp [Layered, Frame.isOwn, Frame.tells, Frame.delivers]

theorem TurnCode.layered {p : Phase} (code : TurnCode p fs) :
    Layered fs ∧ ∀ g ∈ fs, g.tells = false := by
  cases code with
  | refresh fs code => cases code <;> simp [Layered, Frame.isOwn, Frame.tells]
  | _ => simp [Layered, Frame.isOwn, Frame.tells]

/-- Code that is no part of a course and is not about to tell anything pushes no such code. -/
theorem FrameStep.silent (step : FrameStep w t f u fs) (foreign : f.isOwn = false)
    (quiet : ∀ n, f ≠ .notify n) : ∀ g ∈ fs, g.isOwn = false ∧ ∀ n, g ≠ .notify n := by
  cases step with
  | own f s x x' c chain fs isHere hx step => rw [step.isOwn] at foreign; cases foreign
  | notify n => exact absurd rfl (quiet n)
  | _ => simp [Frame.isOwn]

/-- Only what tells, or is about to tell, pushes code that tells. -/
theorem FrameStep.delivers (step : FrameStep w t f u fs) (quiet : f.tells = false) :
    ∀ g ∈ fs, g.delivers = false := by
  cases step with
  | own f s x x' c chain fs isHere hx step => exact step.layered.2
  | notify | deliver => cases quiet
  | _ => exact none_of_any rfl

/-- Running a frame keeps the layers of the code. -/
theorem Layered.run (h : Layered (f :: rest)) (step : FrameStep w t f u fs) :
    Layered (fs ++ rest) := by
  obtain ⟨own, told, below⟩ := h
  cases isOwn : f.isOwn with
  | true =>
    have none := own isOwn
    cases step with
    | own f s x x' c chain fs isHere hx step => exact step.layered.1.append below none
    | leave | markFailed | stray => exact below
    | _ => cases isOwn
  | false =>
    by_cases notifies : ∃ n, f = .notify n
    · obtain ⟨n, rfl⟩ := notifies
      cases step with
      | notifyNobody => exact below
      | notify => exact .of_plain (by simp [Frame.isOwn]) below
      | own f s x x' c chain fs isHere hx step => cases step
      | stray f own => cases own
    · exact .of_plain (step.silent isOwn fun n same => notifies ⟨n, same⟩) below

/-- Whatever a step means to the code of a thread, it keeps its layers. -/
theorem Layered.step (h : Layered fs) (step : ThreadStep w m v t fs gs) : Layered gs := by
  cases step with
  | same => exact h
  | run f rest fs u here code step => exact h.run step
  | call | release | started => simp [Layered, Frame.isOwn]
  | turn s k x x' es here turn hx idle step => exact (step.code idle).layered.1

end Layers

section Engaged
variable {w u v : World} {m : Move} {t : Thread} {f : Frame} {fs gs rest : List Frame} {s r : Nat}
  {x y : Worker}

/-- The worker has not decided that the connection does not come about, or may still tell
something. -/
def Worker.IsEngaged (x : Worker) : Prop :=
  x.stands ≠ .notInitialized ∨ ∃ g ∈ x.frames, g.mayTell = true

theorem mayTell_of_delivers (h : f.delivers = true) : f.mayTell = true := by
  cases f <;> first | rfl | cases h

theorem tells_of_mayTell (h : f.mayTell = true) (foreign : f.isOwn = false) : f.tells = true := by
  cases f <;> first | rfl | simp [Frame.mayTell, Frame.isOwn] at h foreign

/-- Code that is no part of a course and may not tell anything pushes no code that may. -/
theorem FrameStep.mayTell (step : FrameStep w t f u fs) (foreign : f.isOwn = false)
    (quiet : f.mayTell = false) : ∀ g ∈ fs, g.mayTell = false := by
  have silent := step.silent foreign (by rintro n rfl; cases quiet)
  have still := step.delivers (by cases f <;> first | rfl | cases quiet)
  intro g hg
  have := still g hg
  obtain ⟨notOwn, notNotify⟩ := silent g hg
  cases g <;> first
    | rfl
    | exact absurd rfl (notNotify _)
    | simp [Frame.delivers, Frame.isOwn] at this notOwn

/-- A worker that goes on with its own course has not decided, or may still tell something. -/
theorem engaged_of_own (h : x.OnCourse) (hf : x.frames = f :: rest) (own : f.isOwn = true)
    (stays : f ≠ .leave) : x.IsEngaged := by
  have course := h.course
  rw [hf, ownCode_own own] at course
  rw [Worker.IsEngaged, Worker.stands, hf, ownCode_own own]
  generalize x.phase = p, x.refreshing = q, x.refreshes = n, ownCode rest = o at course ⊢
  have first (b : Bool) (same : f = .setConnected b) : ∃ g ∈ f :: rest, g.mayTell = true :=
    ⟨f, List.mem_cons_self .., by rw [same]; rfl⟩
  cases course with
  | refresh p fs live code =>
    left
    rw [standsFor_refresh code]
    cases p with
    | ended => exact absurd rfl live
    | _ => simp [standsFor]
  | refused => exact .inr (first _ rfl)
  | hush p h => exact .inr (first _ rfl)
  | leave | finish => exact absurd rfl stays
  | _ => exact .inl (by simp [standsFor])

/-- A worker that is engaged was so before. -/
theorem WorkerStep.engaged (h : x.OnCourse) (step : WorkerStep w m s x y) (engaged : y.IsEngaged) :
    x.IsEngaged := by
  cases step with
  | others y away touched =>
    rwa [Worker.IsEngaged, Worker.stands, touched.phase, touched.frames] at engaged
  | foreign f rest fs u y here hf ran notOwn touched =>
    obtain stands | ⟨g, hg, mayTell⟩ := engaged
    · left
      intro none
      apply stands
      rw [Worker.stands] at none ⊢
      rwa [touched.phase, ran.ownCode_eq notOwn, ← hf]
    · refine .inr ?_
      rw [hf]
      rcases List.mem_append.mp hg with pushed | left
      · refine ⟨f, List.mem_cons_self .., ?_⟩
        by_contra quiet
        rw [ran.mayTell notOwn (by simpa using quiet) g pushed] at mayTell
        cases mayTell
      · exact ⟨g, List.mem_cons_of_mem _ left, mayTell⟩
  | own f rest fs x' c chain here hf own =>
    exact engaged_of_own h hf own.isOwn (by rintro rfl; cases own)
  | markFailed rest here hf => exact engaged_of_own h hf rfl (by simp)
  | leave rest here hf =>
    obtain stands | ⟨g, hg, mayTell⟩ := engaged
    · exact absurd rfl stands
    · exact .inr ⟨g, by rw [hf]; exact List.mem_cons_of_mem _ hg, mayTell⟩
  | reply => exact engaged
  | turn k y es here idle stays step =>
    left
    rw [Worker.stands, idle]
    cases hp : x.phase with
    | ended => exact absurd hp stays
    | _ => simp [standsFor, ownCode]

theorem ended_step (h : x.OnCourse) (layers : Layered x.frames)
    (before : x.phase = .ended → ∀ g ∈ x.frames, g.mayTell = false)
    (step : WorkerStep w m s x y) (ended : y.phase = .ended) :
    ∀ g ∈ y.frames, g.mayTell = false := by
  cases step with
  | others y away touched =>
    rw [touched.frames]
    exact before (touched.phase.symm.trans ended)
  | foreign f rest fs u y here hf ran notOwn touched =>
    have before := before (touched.phase.symm.trans ended)
    rw [hf] at before
    intro g hg
    rcases List.mem_append.mp hg with pushed | left
    · exact ran.mayTell notOwn (before f (List.mem_cons_self ..)) g pushed
    · exact before g (List.mem_cons_of_mem _ left)
  | own f rest fs x' c chain here hf own =>
    have same : x.phase = .ended := by cases own <;> first | exact ended | cases ended
    have none := h.ownCode_of_ended same
    rw [hf, ownCode_own own.isOwn] at none
    cases none
  | markFailed rest here hf =>
    exact fun g hg => before ended g (by rw [hf]; exact List.mem_cons_of_mem _ hg)
  | leave rest here hf =>
    rw [hf] at layers
    intro g hg
    by_contra mayTell
    have mayTell : g.mayTell = true := by simpa using mayTell
    cases own : g.isOwn with
    | false =>
      have := layers.1 rfl g hg
      rw [tells_of_mayTell mayTell own] at this
      cases this
    | true =>
      have course := h.course
      have left := (mem_ownCode own).mpr hg
      rw [hf, ownCode_own rfl] at course
      generalize x.phase = p, x.refreshing = q, x.refreshes = n, ownCode rest = o at course left
      cases course with
      | refresh p fs stays code => cases code
      | leave | finish => cases left
  | reply => exact before ended
  | turn k y es here idle stays step =>
    exfalso
    obtain same | ⟨-, closed, -⟩ := step.same.2.2.2
    · exact stays (same.symm.trans ended)
    · rw [closed] at ended
      cases ended

end Engaged

end RemoteNode.Session
