import RemoteNode.Proofs.Session.Deliveries
import RemoteNode.Proofs.Session.Histories

/-! What becomes of an observer that is removed. If another thread tells observers when it is
removed, its removal waits; if nobody does, nobody tells it any more. Only a delivery on the thread
that removes it, in the midst of which that thread then is, goes on to those whom it began with. -/

namespace RemoteNode.Session

open Observer (Id Registry Notice Side)

namespace World

/-- A run with its history, latest first. Before every step observers may be let go of, and may
change what they do when they are told something. -/
inductive Story (w : World) : List (World × Move) → World → Prop
  | nil : Story w [] w
  | step {h : List (World × Move)} {v u : World} (m : Move) (past : Story w h v) (kept : List Id)
    (reaction : Id → Notice → List Act)
    (now : ({ v with kept := kept, reaction := reaction } : World).step m = some u) :
    Story w (({ v with kept := kept, reaction := reaction }, m) :: h) u

/-- Nobody is told anything, and everybody is registered once. -/
structure Undelivering (w : World) (side : Side) : Prop where
  nodup : (w.registry side).Nodup
  free : w.delivery side = none
  none : ∀ t, audiences side (w.frames t) = []

/-- A thread adds an observer in a step. -/
def Adds (side : Side) (o : Id) (e : World × Move) : Prop :=
  e.1.gone = false ∧ ∃ t src rest below, e.2 = .run t ∧
    e.1.frames t = .script src (.register side o :: rest) :: below

/-- A thread tells an observer of a kind something in a step. -/
def TellsObserver (side : Side) (o : Id) (e : World × Move) : Prop :=
  ∃ t n rest below, n.side = side ∧ e.2 = .run t ∧
    e.1.frames t = .deliver n (o :: rest) :: below

/-- How it stands with an observer since its removal on a thread, which has to run some code after
that. -/
inductive Aftermath (v : World) (side : Side) (o : Id) (t : Thread) (code : List Frame)
    (k : List (World × Move)) (w : World) : Prop
  /-- The removal waits for the delivery of another thread. -/
  | waiting (waits : w.frames t = .awaitDelivery side :: code) (clear : audiences side code = [])
    (still : ∀ e ∈ k, e.2 ≠ .run t)
  /-- Nobody is about to tell it anything. -/
  | free (spared : ∀ t, ∀ rest ∈ audiences side (w.frames t), o ∉ rest)
  /-- The delivery goes on in the midst of which it was removed, and has not come to it since. -/
  | inside (d : Delivery) (before : v.delivery side = some d) (here : d.thread = t)
    (now : w.delivery side = some d)
    (spared : ∀ e ∈ k, e.1.delivery side = some d ∧ ¬TellsObserver side o e)

section Steps
variable {v w u : World} {m : Move} {side : Side} {o : Id} {t : Thread} {code : List Frame}
  {k : List (World × Move)} {src : Source} {rest : List Act} {f : Frame} {below : List Frame}

/-- A thread that adds nobody keeps an observer out that is not registered. -/
theorem unregistered_step (step : WorldStep w m u) (unadded : ¬Adds side o (w, m))
    (absent : o ∉ w.registry side) : o ∉ u.registry side := by
  obtain ⟨registry, -⟩ | ⟨t, f, rest, fs, rfl, code, -, change, -⟩ := step.deliveryStep side
  · rwa [registry]
  · generalize u.registry side = registry, u.delivery side = delivery at change
    cases change with
    | other f fs r before after fewer => exact fun there => absent (fewer.subset there)
    | add src p acts fs reachable after =>
      intro there
      obtain rfl | there := of_mem_add there
      · exact unadded ⟨reachable, t, src, acts, rest, rfl, code⟩
      · exact absent there
    | begin n r concerns free fewer => exact fun there => absent (fewer.subset there)
    | tell | finish => exact absent

/-- Whom nobody is about to tell anything, and who is not registered, nobody is about to tell
anything after a step. -/
theorem spared_step (step : WorldStep w m u) (absent : o ∉ w.registry side)
    (spared : ∀ t, ∀ rest ∈ audiences side (w.frames t), o ∉ rest) :
    ∀ t, ∀ rest ∈ audiences side (u.frames t), o ∉ rest := by
  obtain ⟨-, -, -, same⟩ | ⟨t, f, below, fs, rfl, code, now, change, elsewhere⟩ :=
    step.deliveryStep side
  · intro t
    rw [same t]
    exact spared t
  intro r rest there
  by_cases here : r = t
  · subst here
    have kept (f : Frame) (old : w.frames r = f :: below) (later : rest ∈ audiences side below) :
        o ∉ rest := by
      refine spared r rest ?_
      rw [old, ← List.singleton_append, audiences_append]
      exact List.mem_append_right _ later
    rw [now, audiences_append] at there
    rcases List.mem_append.mp there with pushed | later
    · generalize u.registry side = registry, u.delivery side = delivery at change
      cases change with
      | other f fs r before after fewer =>
        rw [after] at pushed
        cases pushed
      | add src p acts fs reachable after =>
        rw [after] at pushed
        cases pushed
      | begin n r concerns free fewer =>
        rw [audiences_deliver concerns] at pushed
        obtain rfl := List.mem_singleton.mp pushed
        exact fun inIt => absent (fewer.subset inIt)
      | tell n p later acts concerns =>
        rw [audiences_cons rfl, audiences_deliver concerns] at pushed
        obtain rfl := List.mem_singleton.mp pushed
        intro inIt
        refine spared r (p :: rest) ?_ (List.mem_cons_of_mem _ inIt)
        rw [code, audiences_deliver concerns]
        exact List.mem_cons_self ..
      | finish => cases pushed
    · exact kept f code later
  · rw [elsewhere r here] at there
    exact spared r rest there

theorem free_of_awaited (delivers : w.Delivers side) (step : WorldStep w (.run t) u)
    (waits : w.frames t = .awaitDelivery side :: code) (clear : audiences side code = []) :
    w.delivery side = none := by
  obtain ⟨f, rest, fs, z, code', ran, -, -⟩ := step.ran
  rw [waits] at code'
  obtain ⟨rfl, rfl⟩ := List.cons.inj code'
  cases hd : w.delivery side with
  | none => rfl
  | some d =>
    cases ran with
    | awaitDelivery side free =>
      obtain rfl := free d hd
      obtain ⟨-, rest, -, only⟩ := delivers.busy d hd
      rw [waits, audiences_cons rfl, clear] at only
      cases only
    | own f s x x' c chain fs isHere hx own => cases own
    | stray f own => cases own

theorem waits_step (step : WorldStep w m u) (waits : w.frames t = f :: code) (away : m ≠ .run t) :
    u.frames t = f :: code := by
  have thread := step.threadStep t
  rw [waits] at thread
  generalize u.frames t = code' at thread ⊢
  cases thread with
  | same => rfl
  | run f rest fs z here => exact absurd here away

theorem Aftermath.start (delivers : v.Delivers side) (there : o ∈ v.registry side)
    (reachable : v.gone = false) (step : WorldStep v (.run t) w)
    (removing : v.frames t = .script src (.unregister side o :: rest) :: below) :
    o ∉ w.registry side ∧
      v.Aftermath side o t (.returning src (.unregister side o) (.flag true) ::
        .script src rest :: below) [] w := by
  obtain ⟨f, rest', fs, z, code, ran, rfl, now⟩ := step.ran
  rw [removing] at code
  obtain ⟨rfl, rfl⟩ := List.cons.inj code
  cases ran with
  | unreachable src a rest gone =>
    rw [reachable] at gone
    cases gone
  | own f s x x' c chain fs isHere hx own => cases own
  | stray f own => cases own
  | unregister src side o rest r _ h =>
    have := congrArg Prod.fst h
    simp [Registry.remove, there] at this
  | unregisterAwait src side o rest r _ h =>
    obtain rfl : ((v.registry side).remove o).2 = r := by rw [h]
    rw [registry_setFrames, registry_setRegistry, if_pos rfl]
    refine ⟨fun still => (Registry.mem_remove.mp still).2 rfl, ?_⟩
    have after := delivers.step step
    cases hd : v.delivery side with
    | none =>
      refine .free fun r rest there => ?_
      rw [after.idle (by simpa using hd) r] at there
      cases there
    | some d =>
      by_cases here : d.thread = t
      · exact .inside d hd here (by simpa using hd) fun e past => absurd past List.not_mem_nil
      · refine .waiting now ?_ fun e past => absurd past List.not_mem_nil
        rw [audiences_cons rfl, audiences_cons rfl, ← audiences_cons (f := .script src _) rfl,
          ← removing]
        exact delivers.away d hd t (Ne.symm here)

/-- The aftermath of a removal goes on as long as the observer is not added again. -/
theorem Aftermath.step (h : v.Aftermath side o t code k w) (delivers : w.Delivers side)
    (absent : o ∉ w.registry side) (step : WorldStep w m u) :
    v.Aftermath side o t code ((w, m) :: k) u := by
  cases h with
  | waiting waits clear still =>
    by_cases here : m = .run t
    · subst here
      have free := delivers.idle (free_of_awaited delivers step waits clear)
      refine .free (spared_step step absent fun r rest there => ?_)
      rw [free r] at there
      cases there
    · refine .waiting (waits_step step waits here) clear fun e past => ?_
      rcases List.mem_cons.mp past with rfl | past
      · exact here
      · exact still e past
  | free spared => exact .free (spared_step step absent spared)
  | inside d before here now spared =>
    have after := delivers.step step
    have goesOn (same : u.delivery side = some d) (untold : ¬TellsObserver side o (w, m)) :
        v.Aftermath side o t code ((w, m) :: k) u := by
      refine .inside d before here same fun e past => ?_
      rcases List.mem_cons.mp past with rfl | past
      · exact ⟨now, untold⟩
      · exact spared e past
    obtain ⟨-, delivery, away, -⟩ | ⟨t', f, below, fs, rfl, code', now', change, elsewhere⟩ :=
      step.deliveryStep side
    · refine goesOn (delivery.trans now) ?_
      rintro ⟨t', n, rest, below, -, run, -⟩
      exact away t' run
    have untold (quiet : f.audience? side = none) : ¬TellsObserver side o (w, .run t') := by
      rintro ⟨_, n, rest, below, concerns, ⟨⟩, telling⟩
      cases (List.cons.inj (code'.symm.trans telling)).1
      rw [Frame.audience?, if_pos concerns] at quiet
      cases quiet
    generalize u.registry side = registry, hd : u.delivery side = delivery at change
    cases change with
    | other f fs r quiet => exact goesOn (hd.trans now) (untold quiet)
    | add => exact goesOn (hd.trans now) (untold rfl)
    | begin n r concerns free =>
      rw [free] at now
      cases now
    | finish =>
      refine .free fun r rest there => ?_
      rw [after.idle hd r] at there
      cases there
    | tell n p later acts concerns =>
      by_cases same : p = o
      · subst same
        obtain ⟨d', now'', rfl, suffix, -⟩ := delivers.of_telling concerns code'
        cases now.symm.trans now''
        have once := (delivers.busy d now).1.sublist suffix.sublist
        obtain ⟨-, rest, -, only⟩ := after.busy d (hd.trans now)
        have left : rest = later := by
          rw [now', List.cons_append, audiences_cons rfl, List.singleton_append,
            audiences_deliver concerns] at only
          exact (List.cons.inj only).1.symm
        refine .free fun r rest' there => ?_
        by_cases at_ : r = d.thread
        · rw [at_, only, left] at there
          rw [List.mem_singleton.mp there]
          exact (List.nodup_cons.mp once).1
        · rw [after.away d (hd.trans now) r at_] at there
          cases there
      · refine goesOn (hd.trans now) ?_
        rintro ⟨_, n', rest, below', -, ⟨⟩, telling⟩
        cases (List.cons.inj (code'.symm.trans telling)).1
        exact same rfl

end Steps

section Stories
variable {w₀ v w : World} {side : Side} {o : Id} {t : Thread} {k h : List (World × Move)}
  {src : Source} {rest : List Act} {below : List Frame}

/-- Who is kept and how observers react has no part in what is delivered. -/
theorem Delivers.around (h : w.Delivers side) (kept : List Id)
    (reaction : Id → Notice → List Act) :
    ({ w with kept := kept, reaction := reaction } : World).Delivers side :=
  ⟨h.nodup, h.idle, h.busy, h.away⟩

theorem Aftermath.around {code : List Frame} (h : v.Aftermath side o t code k w) (kept : List Id)
    (reaction : Id → Notice → List Act) :
    v.Aftermath side o t code k { w with kept := kept, reaction := reaction } := by
  cases h with
  | waiting waits clear still => exact .waiting waits clear still
  | free spared => exact .free spared
  | inside d before here now spared => exact .inside d before here now spared

theorem Story.next {u : World} (past : Story w₀ h w) (m : Move) (now : w.step m = some u) :
    Story w₀ ((w, m) :: h) u :=
  .step m past w.kept w.reaction now

/-- Wherever a run leads, what is left of a delivery is code of its thread. -/
theorem Story.delivers (start : w₀.Undelivering side) (run : Story w₀ h w) : w.Delivers side := by
  induction run with
  | nil =>
    refine ⟨start.nodup, fun _ => start.none, fun d busy => ?_, fun _ _ t _ => start.none t⟩
    rw [start.free] at busy
    cases busy
  | step m past kept reaction now ih =>
    exact (ih.around kept reaction).step (worldStep_of_step now)

/-- Since a removal its aftermath goes on, and the observer is not registered. -/
theorem aftermath_of_story {l : List (World × Move)} (start : w₀.Undelivering side)
    (run : Story w₀ (k ++ (v, .run t) :: l) w)
    (removing : v.frames t = .script src (.unregister side o :: rest) :: below)
    (reachable : v.gone = false) (there : o ∈ v.registry side)
    (unadded : ∀ e ∈ k, ¬Adds side o e) :
    o ∉ w.registry side ∧
      v.Aftermath side o t (.returning src (.unregister side o) (.flag true) ::
        .script src rest :: below) k w := by
  induction k generalizing w with
  | nil =>
    cases run with
    | step m past kept reaction now =>
      exact Aftermath.start ((past.delivers start).around kept reaction) there reachable
        (worldStep_of_step now) removing
  | cons e k ih =>
    cases run with
    | step m past kept reaction now =>
      obtain ⟨absent, aftermath⟩ := ih past fun e there => unadded e (List.mem_cons_of_mem _ there)
      have step := worldStep_of_step now
      exact ⟨unregistered_step step (unadded _ (List.mem_cons_self ..)) absent,
        (aftermath.around kept reaction).step ((past.delivers start).around kept reaction) absent
          step⟩

/-- Once the removal of an observer has returned true, and as long as the observer is not added
again, only a delivery in the midst of which it was removed, on the thread that delivers, tells it
anything more: this delivery still goes on, and it tells it for the first time since. -/
theorem removed_of_story {l : List (World × Move)} {n : Observer.Notice} {r : Thread}
    {later : List Id} {under : List Frame} (start : w₀.Undelivering side)
    (run : Story w₀ (k ++ (v, .run t) :: l) w)
    (removing : v.frames t = .script src (.unregister side o :: rest) :: below)
    (reachable : v.gone = false) (there : o ∈ v.registry side)
    (returned : ∃ z, (z, .run t) ∈ k ∧
      z.frames t = .returning src (.unregister side o) (.flag true) :: .script src rest :: below)
    (unadded : ∀ e ∈ k, ¬Adds side o e) (concerns : n.side = side)
    (telling : w.frames r = .deliver n (o :: later) :: under) :
    ∃ d, v.delivery side = some d ∧ d.thread = t ∧ o ∈ d.recipients ∧ r = t ∧
      w.delivery side = some d ∧ ∀ e ∈ k, e.1.delivery side = some d ∧ ¬TellsObserver side o e := by
  obtain ⟨d, now, rfl, suffix, -⟩ := (run.delivers start).of_telling concerns telling
  obtain ⟨-, aftermath⟩ := aftermath_of_story start run removing reachable there unadded
  cases aftermath with
  | waiting waits clear still =>
    obtain ⟨z, past, -⟩ := returned
    exact absurd rfl (still _ past)
  | free spared =>
    refine absurd (List.mem_cons_self ..) (spared d.thread (o :: later) ?_)
    rw [telling, audiences_deliver concerns]
    exact List.mem_cons_self ..
  | inside d' before here now' spared =>
    cases now.symm.trans now'
    exact ⟨d, before, here, suffix.subset (List.mem_cons_self ..), here, now, spared⟩

end Stories

/-- A caller who tells two observers of peers, the first of which removes the second when it is
told: who is registered, which delivery goes on, what is left to run, and the log. -/
def removal (registered : List Id) (d : Option Delivery) (code : List Frame) (log : List Entry) :
    World :=
  { initial 1 .standard with
    nodeObservers := registered
    nodeDelivery := d
    kept := [0, 1]
    reaction := fun o _ => if o = 0 then [.unregister .node 1] else []
    callers := [code]
    log := log }

/-- Nobody is told anything before the caller begins. -/
theorem undelivering_removal :
    (removal [0, 1] none [.notify (.peers 3)] []).Undelivering .node := by
  refine ⟨by decide, rfl, fun t => ?_⟩
  rcases t with (_ | n) | s <;> rfl

/-- The first observer is told, and it removes the second one, which returns true. -/
theorem removal_run : ∃ (k l : List (World × Move)) (v w : World) (below : List Frame),
    Story (removal [0, 1] none [.notify (.peers 3)] []) (k ++ (v, .run (.caller 0)) :: l) w ∧
      v.frames (.caller 0) = .script (.observer 0) [.unregister .node 1] :: below ∧
      v.gone = false ∧ 1 ∈ v.registry .node ∧
      (∃ z, (z, .run (.caller 0)) ∈ k ∧ z.frames (.caller 0) =
        .returning (.observer 0) (.unregister .node 1) (.flag true) ::
          .script (.observer 0) [] :: below) ∧
      (∀ e ∈ k, ¬Adds .node 1 e) ∧
      w.frames (.caller 0) = [.deliver (.peers 3) [1]] := by
  let t : Thread := .caller 0
  let n : Observer.Notice := .peers 3
  let d : Option Delivery := some ⟨t, [0, 1]⟩
  let log : List Entry := [.notified 0 n, .announced t n]
  let told := removal [0, 1] d [.deliver n [0, 1]] [.announced t n]
  let removing := removal [0, 1] d
    [.script (.observer 0) [.unregister .node 1], .deliver n [1]] log
  let waiting := removal [0] d
    [.awaitDelivery .node, .returning (.observer 0) (.unregister .node 1) (.flag true),
      .script (.observer 0) [], .deliver n [1]] log
  let removed := removal [0] d
    [.returning (.observer 0) (.unregister .node 1) (.flag true), .script (.observer 0) [],
      .deliver n [1]] log
  let returned := removal [0] d [.script (.observer 0) [], .deliver n [1]]
    (.returned (.observer 0) (.unregister .node 1) (.flag true) :: log)
  refine ⟨[(returned, .run t), (removed, .run t), (waiting, .run t)],
    [(told, .run t), (removal [0, 1] none [.notify n] [], .run t)], removing,
    removal [0] d [.deliver n [1]]
      (.returned (.observer 0) (.unregister .node 1) (.flag true) :: log),
    [.deliver n [1]], ?_, rfl, rfl, by decide, ⟨removed, by simp [t], rfl⟩, ?_, rfl⟩
  · have begun : Story _ [(removal [0, 1] none [.notify n] [], .run t)] told := Story.nil.next _ rfl
    have reacts : Story _ _ removing := begun.next (.run t) rfl
    have waits : Story _ _ waiting := reacts.next (.run t) rfl
    have returns : Story _ _ removed := waits.next (.run t) rfl
    have done : Story _ _ returned := returns.next (.run t) rfl
    exact done.next (.run t) rfl
  · rintro e past ⟨-, _, src, acts, below, run, code⟩
    simp only [List.mem_cons, List.not_mem_nil, or_false] at past
    rcases past with rfl | rfl | rfl <;> cases run <;> cases code

/-- The second observer is still told what the first one was told when it removed it. -/
theorem removed_removal : ∃ (k l : List (World × Move)) (v w : World) (d : Delivery),
    Story (removal [0, 1] none [.notify (.peers 3)] []) (k ++ (v, .run (.caller 0)) :: l) w ∧
      w.frames (.caller 0) = [.deliver (.peers 3) [1]] ∧ v.delivery .node = some d ∧
      d.thread = .caller 0 ∧ w.delivery .node = some d ∧ ∀ e ∈ k, ¬TellsObserver .node 1 e := by
  obtain ⟨k, l, v, w, below, run, removing, reachable, there, returned, unadded, telling⟩ :=
    removal_run
  obtain ⟨d, before, here, -, -, now, spared⟩ := removed_of_story undelivering_removal run removing
    reachable there returned unadded rfl telling
  exact ⟨k, l, v, w, d, run, telling, before, here, now, fun e past => (spared e past).2⟩

/-- An observer may be told something after its removal has returned true, although it was not added
again: the delivery during which another observer removed it comes to it later. -/
theorem exists_not_untold : ∃ (w₀ : World) (k l : List (World × Move)) (v w : World)
    (below : List Frame), w₀.Undelivering .node ∧
      Story w₀ (k ++ (v, .run (.caller 0)) :: l) w ∧
      v.frames (.caller 0) = .script (.observer 0) [.unregister .node 1] :: below ∧
      1 ∈ v.registry .node ∧
      (∃ z, (z, .run (.caller 0)) ∈ k ∧ z.frames (.caller 0) =
        .returning (.observer 0) (.unregister .node 1) (.flag true) ::
          .script (.observer 0) [] :: below) ∧
      (∀ e ∈ k, ¬Adds .node 1 e) ∧
      ∃ u, w.step (.run (.caller 0)) = some u ∧ u.log = .notified 1 (.peers 3) :: w.log := by
  obtain ⟨k, l, v, w, below, run, removing, -, there, returned, unadded, telling⟩ := removal_run
  refine ⟨_, k, l, v, w, below, undelivering_removal, run, removing, there, returned, unadded, ?_⟩
  rw [step, World.run, telling]
  exact ⟨_, rfl, rfl⟩

end World

end RemoteNode.Session
