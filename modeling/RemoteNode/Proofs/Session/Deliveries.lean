import RemoteNode.Proofs.Session.Waiting

/-! Who is still told of a notice. At most one delivery to observers of a kind goes on; what is left
of it is code of its thread, and everybody in it was registered when it began. This holds whatever
code the callers have, however observers react, and whoever is kept alive. -/

namespace RemoteNode.Session

open Observer (Id Registry Notice Side)

/-- Whom a frame still has to tell, if it delivers to observers of a kind. -/
def Frame.audience? (side : Side) : Frame → Option (List Id)
  | deliver n rest => if n.side = side then some rest else none
  | _ => none

/-- Whom the deliveries in some code still have to tell. -/
def audiences (side : Side) (code : List Frame) : List (List Id) :=
  code.filterMap (Frame.audience? side)

/-- What running a frame means to the observers of a kind: who is registered afterwards, and which
delivery goes on. -/
inductive DeliveryStep (w : World) (t : Thread) (side : Side) :
    Frame → List Frame → Registry → Option Delivery → Prop
  | other (f : Frame) (fs : List Frame) (r : Registry) (before : f.audience? side = none)
    (after : audiences side fs = []) (fewer : r.Sublist (w.registry side)) :
    DeliveryStep w t side f fs r (w.delivery side)
  | add (src : Source) (o : Id) (rest : List Act) (fs : List Frame) (reachable : w.gone = false)
    (after : audiences side fs = []) :
    DeliveryStep w t side (.script src (.register side o :: rest)) fs
      ((w.registry side).add w.isAlive o).2 (w.delivery side)
  | begin (n : Notice) (r : Registry) (concerns : n.side = side) (free : w.delivery side = none)
    (fewer : r.Sublist (w.registry side)) :
    DeliveryStep w t side (.notify n) [.deliver n r] r (some ⟨t, r⟩)
  | tell (n : Notice) (o : Id) (rest : List Id) (acts : List Act) (concerns : n.side = side) :
    DeliveryStep w t side (.deliver n (o :: rest)) [.script (.observer o) acts, .deliver n rest]
      (w.registry side) (w.delivery side)
  | finish (n : Notice) (concerns : n.side = side) :
    DeliveryStep w t side (.deliver n []) [] (w.registry side) none

section Steps
variable {w u v : World} {m : Move} {t : Thread} {f : Frame} {fs gs : List Frame} {side : Side}
  {n : Notice} {o p : Id} {r : Registry}

@[simp] theorem audiences_append :
    audiences side (fs ++ gs) = audiences side fs ++ audiences side gs := List.filterMap_append

theorem audiences_cons (h : f.audience? side = none) :
    audiences side (f :: fs) = audiences side fs := List.filterMap_cons_none h

theorem audiences_deliver (h : n.side = side) {rest : List Id} :
    audiences side (.deliver n rest :: fs) = rest :: audiences side fs :=
  List.filterMap_cons_some (if_pos h)

theorem audiences_eq_nil (h : ∀ g ∈ fs, g.tells = false) : audiences side fs = [] := by
  refine List.filterMap_eq_nil_iff.mpr fun g there => ?_
  have := h g there
  cases g <;> first | rfl | cases this

theorem of_mem_add {alive : Id → Bool} (h : p ∈ (r.add alive o).2) : p = o ∨ p ∈ r := by
  rw [Registry.add] at h
  split at h
  · exact .inr (Registry.mem_live.mp h).1
  · rcases List.mem_append.mp h with kept | added
    · exact .inr (Registry.mem_live.mp kept).1
    · exact .inl (List.mem_singleton.mp added)

/-- What a worker does on its own course delivers nothing. -/
theorem OwnStep.audiences {x x' : Worker} {c : Connection} {chain : ChainView}
    (step : OwnStep w x f x' c chain fs) :
    f.audience? side = none ∧ audiences side fs = [] := by
  cases step with
  | notePeers | noteKnown | noteHeader | notePool => exact ⟨rfl, by split <;> rfl⟩
  | _ => exact ⟨rfl, rfl⟩

/-- Running a frame means this to the observers of a kind. -/
theorem FrameStep.deliveryStep (step : FrameStep w t f u fs) (side : Side) :
    DeliveryStep w t side f fs (u.registry side) (u.delivery side) := by
  have nothing (f : Frame) (fs : List Frame) (before : f.audience? side = none)
      (after : Session.audiences side fs = []) :
      DeliveryStep w t side f fs (w.registry side) (w.delivery side) :=
    .other f fs _ before after (.refl _)
  cases step with
  | register src other o rest b r reachable h =>
    rw [World.registry_setRegistry, World.delivery_setRegistry]
    split
    · rename_i same
      subst same
      have added : r = ((w.registry other).add w.isAlive o).2 := by rw [h]
      rw [added]
      exact .add src o rest _ reachable rfl
    · exact nothing _ _ rfl rfl
  | unregister src other o rest r _ h | unregisterAwait src other o rest r _ h =>
    rw [World.registry_setRegistry, World.delivery_setRegistry]
    split
    · rename_i same
      subst same
      have removed : r = ((w.registry other).remove o).2 := by rw [h]
      rw [removed]
      exact .other _ _ _ rfl rfl List.filter_sublist
    · exact nothing _ _ rfl rfl
  | notifyNobody n r free h =>
    rw [World.registry_record, World.delivery_record, World.registry_setRegistry,
      World.delivery_setRegistry]
    split
    · rename_i same
      subst same
      rw [← h]
      exact .other _ _ _ rfl rfl List.filter_sublist
    · exact nothing _ _ rfl rfl
  | notify n r free h =>
    rw [World.registry_setDelivery, World.delivery_setDelivery, World.registry_record,
      World.delivery_record, World.registry_setRegistry, World.delivery_setRegistry]
    split
    · rename_i same
      subst same
      rw [← h]
      exact .begin n _ rfl free List.filter_sublist
    · rename_i away
      exact nothing _ _ rfl (List.filterMap_cons_none (if_neg away))
  | delivered n =>
    rw [World.registry_setDelivery, World.delivery_setDelivery]
    split
    · rename_i same
      exact .finish n same
    · rename_i away
      exact nothing _ _ (if_neg away) rfl
  | deliver n o rest =>
    rw [World.registry_record, World.delivery_record]
    by_cases same : n.side = side
    · exact .tell n o rest _ same
    · refine nothing _ _ (if_neg same) ?_
      rw [audiences_cons rfl]
      exact List.filterMap_cons_none (if_neg same)
  | own f s x x' c chain fs isHere hx step =>
    have here : DeliveryStep w t side f fs (w.registry side) (w.delivery side) :=
      nothing f fs step.audiences.1 step.audiences.2
    cases side <;> exact here
  | stray f own =>
    refine nothing f [] ?_ rfl
    cases f <;> first | rfl | cases own
  | _ => cases side <;> exact nothing _ _ rfl rfl

/-- A step leaves the observers of a kind alone, or it runs a frame that means this to them. -/
theorem WorldStep.deliveryStep (step : WorldStep w m v) (side : Side) :
    (v.registry side = w.registry side ∧ v.delivery side = w.delivery side ∧
        (∀ t, m ≠ .run t) ∧ ∀ t, audiences side (v.frames t) = audiences side (w.frames t)) ∨
      ∃ t f rest fs, m = .run t ∧ w.frames t = f :: rest ∧ v.frames t = fs ++ rest ∧
        DeliveryStep w t side f fs (v.registry side) (v.delivery side) ∧
          ∀ r, r ≠ t → audiences side (v.frames r) = audiences side (w.frames r) := by
  have elsewhere (t : Thread) (away : m ≠ .run t) :
      audiences side (v.frames t) = audiences side (w.frames t) := by
    have thread := step.threadStep t
    generalize w.frames t = code, v.frames t = code' at thread
    cases thread with
    | same => rfl
    | run f rest fs u here => exact absurd here away
    | call | release | started => rfl
    | turn s k x x' es here turn hx idle step =>
      exact audiences_eq_nil (step.code idle).layered.2
  cases m with
  | run t =>
    obtain ⟨f, rest, fs, u, code, ran, rfl, now⟩ := step.ran
    rw [World.registry_setFrames, World.delivery_setFrames]
    exact .inr ⟨t, f, rest, fs, rfl, code, now, ran.deliveryStep side,
      fun r ne => elsewhere r fun same => ne (Move.run.inj same).symm⟩
  | call | release | reply | turn =>
    refine .inl ⟨?_, ?_, fun t => Move.noConfusion, fun t => elsewhere t Move.noConfusion⟩
    all_goals
      cases step
      cases side <;> rfl

end Steps

/-- What is left of the delivery to the observers of a kind is code of its thread, and there is no
other. -/
structure World.Delivers (w : World) (side : Side) : Prop where
  nodup : (w.registry side).Nodup
  idle : w.delivery side = none → ∀ t, audiences side (w.frames t) = []
  busy : ∀ d, w.delivery side = some d → d.recipients.Nodup ∧
    ∃ rest, rest <:+ d.recipients ∧ audiences side (w.frames d.thread) = [rest]
  away : ∀ d, w.delivery side = some d → ∀ t, t ≠ d.thread → audiences side (w.frames t) = []

namespace World.Delivers
variable {w v : World} {m : Move} {t : Thread} {side : Side} {n : Notice} {rest : List Id}
  {below : List Frame}

/-- Whoever tells something is on the thread of the delivery that goes on, and nothing else is left
of it. -/
theorem of_telling (h : w.Delivers side) (concerns : n.side = side)
    (code : w.frames t = .deliver n rest :: below) :
    ∃ d, w.delivery side = some d ∧ d.thread = t ∧ rest <:+ d.recipients ∧
      audiences side below = [] := by
  have here : audiences side (w.frames t) = rest :: audiences side below := by
    rw [code, audiences_deliver concerns]
  cases hd : w.delivery side with
  | none =>
    rw [h.idle hd t] at here
    cases here
  | some d =>
    obtain rfl : t = d.thread := by
      by_contra ne
      rw [h.away d hd t ne] at here
      cases here
    obtain ⟨-, left, suffix, only⟩ := h.busy d hd
    obtain ⟨rfl, none⟩ := List.cons.inj (only.symm.trans here)
    exact ⟨d, rfl, rfl, suffix, none.symm⟩

theorem step (h : w.Delivers side) (step : WorldStep w m v) : v.Delivers side := by
  obtain ⟨registry, delivery, -, same⟩ | ⟨t, f, rest, fs, -, code, now, change, elsewhere⟩ :=
    step.deliveryStep side
  · refine ⟨registry ▸ h.nodup, ?_, ?_, ?_⟩ <;> simp only [delivery, same]
    · exact h.idle
    · exact h.busy
    · exact h.away
  have unmoved (before : f.audience? side = none) (after : audiences side fs = []) (r : Thread) :
      audiences side (v.frames r) = audiences side (w.frames r) := by
    by_cases here : r = t
    · rw [here, code, now, audiences_append, after, audiences_cons before, List.nil_append]
    · exact elsewhere r here
  generalize hr : v.registry side = registry, hd : v.delivery side = delivery at change
  cases change with
  | other f fs r before after fewer =>
    refine ⟨hr ▸ h.nodup.sublist fewer, ?_, ?_, ?_⟩ <;> simp only [hd, unmoved before after]
    · exact h.idle
    · exact h.busy
    · exact h.away
  | add src o acts fs reachable after =>
    refine ⟨hr ▸ Registry.nodup_add h.nodup, ?_, ?_, ?_⟩ <;> simp only [hd, unmoved rfl after]
    · exact h.idle
    · exact h.busy
    · exact h.away
  | begin n r concerns free fewer =>
    have nodup := h.nodup.sublist fewer
    have none : audiences side rest = [] := by
      rw [← audiences_cons (f := .notify n) rfl, ← code]
      exact h.idle free t
    refine ⟨hr ▸ nodup, fun no => (by rw [hd] at no; cases no), fun d same => ?_,
      fun d same r ne => ?_⟩
    · cases hd.symm.trans same
      refine ⟨nodup, registry, List.suffix_rfl, ?_⟩
      rw [now, List.singleton_append, audiences_deliver concerns, none]
    · cases hd.symm.trans same
      rw [elsewhere r ne]
      exact h.idle free r
  | tell n o later acts concerns =>
    obtain ⟨d, before, rfl, suffix, none⟩ := h.of_telling concerns code
    refine ⟨hr ▸ h.nodup, fun no => (by rw [hd, before] at no; cases no), fun d' same => ?_,
      fun d' same r ne => ?_⟩
    all_goals
      rw [hd, before] at same
      cases same
    · refine ⟨(h.busy d before).1, later, (List.suffix_cons ..).trans suffix, ?_⟩
      rw [now, List.cons_append, audiences_cons rfl, List.singleton_append,
        audiences_deliver concerns, none]
    · rw [elsewhere r ne]
      exact h.away d before r ne
  | finish n concerns =>
    obtain ⟨d, before, rfl, -, none⟩ := h.of_telling concerns code
    refine ⟨hr ▸ h.nodup, fun _ r => ?_, fun d' same => (by rw [hd] at same; cases same),
      fun d' same => (by rw [hd] at same; cases same)⟩
    by_cases here : r = d.thread
    · rw [here, now]
      exact none
    · rw [elsewhere r here]
      exact h.away d before r here

end World.Delivers

end RemoteNode.Session
