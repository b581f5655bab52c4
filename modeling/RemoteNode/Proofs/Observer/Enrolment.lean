import RemoteNode.Observer.Audience
import Mathlib.Data.List.Basic
import Mathlib.Data.List.Nodup

/-! The registries against a plain ordered list of everybody who was added and not removed since.
Observers that are gone stay on the list and are dropped from a registry sooner or later; among
those who are alive, the two agree at all times. So every call tells the truth, and a notice goes to
whoever is on the list and alive when it begins, whatever the observers do meanwhile. -/

namespace RemoteNode.Observer

/-! ### The plain list -/

/-- A call on the registries with what it returned. -/
inductive Call where
  | add (side : Side) (o : Id) (added : Bool)
  | remove (side : Side) (o : Id) (removed : Bool)
  /-- Empties both. -/
  | clear
  deriving DecidableEq

/-- Who is on the list of a kind after a call. -/
def Call.enrol (side : Side) (l : List Id) : Call → List Id
  | .add s o _ => if s = side ∧ o ∉ l then l ++ [o] else l
  | .remove s o _ => if s = side then l.filter (· != o) else l
  | .clear => []

/-- The observers of a kind by the calls that were made, latest first, in the order in which they
were added. -/
def enrolled (side : Side) : List Call → List Id
  | [] => []
  | c :: earlier => c.enrol side (enrolled side earlier)

/-- A call returned whether the observer was not on the list, or whether it was. -/
def Call.IsTrue (earlier : List Call) : Call → Prop
  | .add side o added => added = true ↔ o ∉ enrolled side earlier
  | .remove side o removed => removed = true ↔ o ∈ enrolled side earlier
  | .clear => True

/-- Every call returned the truth. -/
def AllTrue : List Call → Prop
  | [] => True
  | c :: earlier => c.IsTrue earlier ∧ AllTrue earlier

section Calls
variable {side : Side} {o : Id} {earlier : List Call} {b : Bool}

/-- Nobody is on the list twice. -/
theorem nodup_enrolled (side : Side) (calls : List Call) : (enrolled side calls).Nodup := by
  induction calls with
  | nil => exact List.nodup_nil
  | cons c earlier ih =>
    cases c with
    | add s o =>
      rw [enrolled, Call.enrol]
      split
      · rename_i new
        exact List.nodup_append_comm.mp (List.nodup_cons.mpr ⟨new.2, ih⟩)
      · exact ih
    | remove s o =>
      rw [enrolled, Call.enrol]
      split
      · exact ih.filter _
      · exact ih
    | clear => exact List.nodup_nil

theorem enrolled_add (new : o ∉ enrolled side earlier) :
    enrolled side (.add side o b :: earlier) = enrolled side earlier ++ [o] := by
  rw [enrolled, Call.enrol, if_pos ⟨rfl, new⟩]

/-- Once removed, an observer is not on the list until it is added again. -/
theorem not_mem_enrolled {between : List Call} (unadded : ∀ c ∈ between, ∀ d, c ≠ .add side o d) :
    o ∉ enrolled side (between ++ .remove side o b :: earlier) := by
  induction between with
  | nil =>
    rw [List.nil_append, enrolled, Call.enrol, if_pos rfl]
    simp
  | cons c between ih =>
    obtain ⟨other, unadded⟩ := List.forall_mem_cons.mp unadded
    have absent := ih unadded
    rw [List.cons_append, enrolled]
    cases c with
    | add s p d =>
      rw [Call.enrol]
      split
      · rename_i new
        have apart : o ≠ p := by
          rintro rfl
          exact other d (new.1 ▸ rfl)
        simp [absent, apart]
      · exact absent
    | remove s p =>
      rw [Call.enrol]
      split
      · exact fun there => absent (List.mem_filter.mp there).1
      · exact absent
    | clear => exact List.not_mem_nil

end Calls

/-! ### What observers do -/

/-- Something that is done when an observer is told something: nothing, or something to the observer
of a name. -/
abbrev Errand := Option (Verb × String)

/-- What an observer does up to a panic. -/
def Member.errands (m : Member) : List Deed → List Errand
  | [] | .panic :: _ => []
  | .idle :: rest => none :: m.errands rest
  | .act v target :: rest => some (v, target.getD m.name) :: m.errands rest

/-- Who was told, and of what. -/
def Entry.told? : Entry → Option (Id × Notice)
  | .told o n => some (o, n)
  | .did _ _ => none

/-- What something that was done has returned. -/
def Entry.did? : Entry → Option Returned
  | .told _ _ => none
  | .did _ r => some r

/-- The call that something was which returned this. -/
def callOf : Verb → Option Id → Returned → List Call
  | .add side, some o, .flag b => [.add side o b]
  | .remove side, some o, .flag b => [.remove side o b]
  | .clear, _, _ => [.clear]
  | _, _, _ => []

namespace Audience

/-- Does something. -/
def run (a : Audience) : Errand → Returned × Audience
  | none => (.skipped, a)
  | some (v, name) => a.actOn v name

/-- The call that it is. -/
def callIn (a : Audience) : Errand → List Call
  | none => []
  | some (v, name) => callOf v (a.named? name) (a.actOn v name).1

/-- Does some things, one by one: what they return, the calls that they are, latest first, and what
they lead to. -/
def runAll (a : Audience) : List Errand → List Returned × List Call × Audience
  | [] => ([], [], a)
  | e :: rest =>
    let (rs, cs, b) := (a.run e).2.runAll rest
    ((a.run e).1 :: rs, cs ++ a.callIn e, b)

/-- What an observer does when it is told of a notice. -/
def errandsOf (a : Audience) (n : Notice) (o : Id) : List Errand :=
  match a.members[o]? with
  | none => []
  | some m => if m.silent then [] else m.errands (m.reaction n)

/-- The audience at the beginning of a delivery. -/
def delivering (a : Audience) (n : Notice) : Audience :=
  { a.setRegistry n.side (a.recipients n) with delivery := some (a.recipients n) }

/-- The calls that the observers make while a notice is told, latest first. -/
def callsIn (a : Audience) (n : Notice) : List Call :=
  ((a.delivering n).runAll ((a.recipients n).flatMap (a.errandsOf n))).2.1

section Deliveries
variable {a b : Audience} {n : Notice} {o : Id} {side : Side} {m : Member}

@[simp]
theorem members_setRegistry (r : Registry) : (a.setRegistry side r).members = a.members := by
  cases side <;> rfl

@[simp]
theorem kept_setRegistry (r : Registry) : (a.setRegistry side r).kept = a.kept := by
  cases side <;> rfl

@[simp]
theorem delivery_setRegistry (r : Registry) : (a.setRegistry side r).delivery = a.delivery := by
  cases side <;> rfl

@[simp]
theorem isAlive_setRegistry (r : Registry) : (a.setRegistry side r).isAlive = a.isAlive := by
  cases side <;> rfl

@[simp]
theorem registry_setRegistry (r : Registry) : (a.setRegistry side r).registry side = r := by
  cases side <;> rfl

theorem isAlive_iff : a.isAlive o = true ↔ o ∈ a.kept ∨ o ∈ a.delivery.getD [] := by
  rw [isAlive, Bool.or_eq_true, List.contains_iff_mem, List.contains_iff_mem]

theorem registry_setRegistry_of_ne {s : Side} (other : s ≠ side) (r : Registry) :
    (a.setRegistry side r).registry s = a.registry s := by
  cases side <;> cases s <;> first | rfl | exact absurd rfl other

/-- Nothing that is done changes what the observers are. -/
theorem members_perform (v : Verb) (target : Option Id) :
    (a.perform v target).2.members = a.members := by
  fun_cases Audience.perform a v target <;> first | rfl | exact members_setRegistry _

theorem members_run (e : Errand) : (a.run e).2.members = a.members := by
  cases e with
  | none => rfl
  | some e => exact members_perform e.1 _

theorem members_runAll (es : List Errand) : (a.runAll es).2.2.members = a.members := by
  induction es generalizing a with
  | nil => rfl
  | cons e es ih => exact ih.trans (members_run e)

theorem runAll_append (es fs : List Errand) :
    a.runAll (es ++ fs) = ((a.runAll es).1 ++ ((a.runAll es).2.2.runAll fs).1,
      ((a.runAll es).2.2.runAll fs).2.1 ++ (a.runAll es).2.1,
      ((a.runAll es).2.2.runAll fs).2.2) := by
  induction es generalizing a with
  | nil => simp [runAll]
  | cons e es ih => simp [runAll, ih]

/-- What an observer does is done one by one. -/
theorem react_eq (ds : List Deed) :
    a.react o m ds = ((a.runAll (m.errands ds)).1.map (.did o), (a.runAll (m.errands ds)).2.2) := by
  fun_induction Member.errands m ds generalizing a with
  | case1 => rfl
  | case2 => rfl
  | case3 rest ih => simp [react, runAll, ih, run]
  | case4 v target rest ih => simp [react, runAll, ih, run]

/-- What an observer does depends on nothing that is done. -/
theorem errandsOf_congr (same : b.members = a.members) : b.errandsOf n = a.errandsOf n := by
  funext o
  rw [errandsOf, errandsOf, same]

theorem isSilent_congr (same : b.members = a.members) : b.isSilent = a.isSilent := by
  funext o
  rw [isSilent, isSilent, same]

/-- Telling one observer. -/
theorem tell_eq (known : o < a.members.length) :
    a.tell n o = ((if a.isSilent o then [] else [.told o n]) ++
      (a.runAll (a.errandsOf n o)).1.map (.did o), (a.runAll (a.errandsOf n o)).2.2) := by
  have there : a.members[o]? = some a.members[o] := List.getElem?_eq_getElem known
  rw [tell, errandsOf, isSilent, there]
  by_cases silent : a.members[o].silent = true
  · simp [silent, runAll]
  · simp [silent, react_eq]

/-- Telling some observers: those who take notice are told, one after the other, and what they do is
done one by one. -/
structure Tells (a : Audience) (n : Notice) (os : List Id) (es : List Entry) (b : Audience) :
    Prop where
  told : es.filterMap Entry.told? = (os.filter fun o => !a.isSilent o).map fun o => (o, n)
  did : es.filterMap Entry.did? = (a.runAll (os.flatMap (a.errandsOf n))).1
  after : b = (a.runAll (os.flatMap (a.errandsOf n))).2.2

theorem tells_tellAll {os : List Id} (known : ∀ o ∈ os, o < a.members.length) :
    a.Tells n os (a.tellAll n os).1 (a.tellAll n os).2 := by
  induction os generalizing a with
  | nil => exact ⟨rfl, rfl, rfl⟩
  | cons o os ih =>
    obtain ⟨first, others⟩ := List.forall_mem_cons.mp known
    have same := members_runAll (a := a) (a.errandsOf n o)
    have later := ih (a := (a.runAll (a.errandsOf n o)).2.2) (by rwa [same])
    obtain ⟨told, did, after⟩ := later
    rw [isSilent_congr same] at told
    rw [errandsOf_congr same] at did after
    have heard : (if a.isSilent o then [] else [Entry.told o n]).filterMap Entry.told? =
        ([o].filter fun o => !a.isSilent o).map fun o => (o, n) := by
      cases silent : a.isSilent o <;> simp [silent, Entry.told?]
    have unheard : (if a.isSilent o then [] else [Entry.told o n]).filterMap Entry.did? = [] := by
      cases a.isSilent o <;> rfl
    have nobody (rs : List Returned) :
        (rs.map (Entry.did o)).filterMap Entry.told? = [] := by
      simp [List.filterMap_map, Entry.told?]
    have results (rs : List Returned) : (rs.map (Entry.did o)).filterMap Entry.did? = rs := by
      simp [List.filterMap_map, Function.comp_def, Entry.did?]
    rw [tellAll, tell_eq first]
    refine ⟨?_, ?_, ?_⟩
    · rw [List.filterMap_append, List.filterMap_append, heard, nobody, told, List.append_nil,
        ← List.map_append, ← List.filter_append, List.singleton_append]
    · rw [List.filterMap_append, List.filterMap_append, unheard, results, did, List.flatMap_cons,
        runAll_append, List.nil_append]
    · rw [List.flatMap_cons, runAll_append]
      exact after

end Deliveries

/-! ### The registries and the list -/

/-- Among those who are alive, the registries and the list agree after some calls. -/
structure Tracks (calls : List Call) (a : Audience) : Prop where
  nodup : ∀ side, (a.registry side).Nodup
  live : ∀ side, (a.registry side).live a.isAlive = (enrolled side calls).filter a.isAlive
  /-- Whoever is registered, listed or kept was made. -/
  registered : ∀ side, ∀ o ∈ a.registry side, o < a.members.length
  listed : ∀ side, ∀ o ∈ enrolled side calls, o < a.members.length
  kept : ∀ o ∈ a.kept, o < a.members.length
  honest : AllTrue calls

section Tracking
variable {a b : Audience} {calls : List Call} {n : Notice} {o : Id} {side : Side} {r : Registry}
  {calls' : List Call}

theorem tracks_empty : Tracks [] empty := by
  refine ⟨?_, ?_, ?_, ?_, nofun, trivial⟩
  · exact fun side => by cases side <;> exact List.nodup_nil
  · exact fun side => by cases side <;> rfl
  · exact fun side o there => by cases side <;> cases there
  · exact fun side o there => by cases side <;> cases there

theorem live_live (alive : Id → Bool) (r : Registry) :
    (r.live alive).live alive = r.live alive := by
  rw [Registry.live, Registry.live, List.filter_filter]
  simp

/-- Where nothing becomes alive that was made before, the registries still agree with the list. -/
theorem Tracks.shrink (h : Tracks calls a) (registry : b.registry = a.registry)
    (fewer : ∀ o < a.members.length, b.isAlive o = true → a.isAlive o = true)
    (members : a.members.length ≤ b.members.length) (kept : ∀ o ∈ b.kept, o < b.members.length) :
    Tracks calls b := by
  have narrow {l : List Id} (known : ∀ o ∈ l, o < a.members.length) :
      (l.filter a.isAlive).filter b.isAlive = l.filter b.isAlive := by
    rw [List.filter_filter]
    refine List.filter_congr fun o there => ?_
    cases alive : b.isAlive o with
    | false => rfl
    | true => simpa using fewer o (known o there) alive
  refine ⟨?_, ?_, ?_, ?_, kept, h.honest⟩
  · rw [registry]
    exact h.nodup
  · intro side
    rw [registry, Registry.live, ← narrow (h.registered side), ← narrow (h.listed side)]
    exact congrArg _ (h.live side)
  · rw [registry]
    exact fun side o there => Nat.lt_of_lt_of_le (h.registered side o there) members
  · exact fun side o there => Nat.lt_of_lt_of_le (h.listed side o there) members

theorem Tracks.set (h : Tracks calls a) (nodup : r.Nodup)
    (live : r.live a.isAlive = (enrolled side calls').filter a.isAlive)
    (other : ∀ s ≠ side, enrolled s calls' = enrolled s calls)
    (registered : ∀ o ∈ r, o < a.members.length)
    (listed : ∀ o ∈ enrolled side calls', o < a.members.length) (honest : AllTrue calls') :
    Tracks calls' (a.setRegistry side r) := by
  refine ⟨fun s => ?_, fun s => ?_, fun s => ?_, fun s => ?_, ?_, honest⟩
  · by_cases same : s = side
    · rwa [same, registry_setRegistry]
    · rw [registry_setRegistry_of_ne same]
      exact h.nodup s
  · rw [isAlive_setRegistry]
    by_cases same : s = side
    · rwa [same, registry_setRegistry]
    · rw [registry_setRegistry_of_ne same, other s same]
      exact h.live s
  · rw [members_setRegistry]
    by_cases same : s = side
    · rwa [same, registry_setRegistry]
    · rw [registry_setRegistry_of_ne same]
      exact h.registered s
  · rw [members_setRegistry]
    by_cases same : s = side
    · rwa [same]
    · rw [other s same]
      exact h.listed s
  · rw [members_setRegistry, kept_setRegistry]
    exact h.kept

theorem Tracks.prune (h : Tracks calls a) (side : Side) :
    Tracks calls (a.setRegistry side ((a.registry side).live a.isAlive)) := by
  refine h.set ((h.nodup side).filter _) ?_ (fun _ _ => rfl) ?_ (h.listed side) h.honest
  · rw [live_live]
    exact h.live side
  · exact fun o there => h.registered side o (List.mem_filter.mp there).1

/-- Whoever is alive is registered if and only if it is on the list. -/
theorem Tracks.mem_iff (h : Tracks calls a) (alive : a.isAlive o = true) :
    o ∈ a.registry side ↔ o ∈ enrolled side calls := by
  have live : o ∈ (a.registry side).live a.isAlive ↔
      o ∈ (enrolled side calls).filter a.isAlive := by rw [h.live side]
  simpa [Registry.mem_live, alive] using live

theorem Tracks.add (h : Tracks calls a) (side : Side) (alive : a.isAlive o = true)
    (made : o < a.members.length) :
    Tracks (.add side o ((a.registry side).add a.isAlive o).1 :: calls)
      (a.setRegistry side ((a.registry side).add a.isAlive o).2) := by
  have here : ((a.registry side).live a.isAlive).contains o = true ↔ o ∈ enrolled side calls := by
    rw [List.contains_iff_mem, Registry.mem_live, h.mem_iff alive]
    exact and_iff_left alive
  have others (b : Bool) : ∀ s ≠ side, enrolled s (.add side o b :: calls) = enrolled s calls :=
    fun s other => if_neg fun both => other both.1.symm
  by_cases listed : o ∈ enrolled side calls
  · have add : (a.registry side).add a.isAlive o = (false, (a.registry side).live a.isAlive) := by
      rw [Registry.add, if_pos (here.mpr listed)]
    have same : enrolled side (.add side o false :: calls) = enrolled side calls :=
      if_neg fun both => both.2 listed
    rw [add]
    refine h.set ?_ ?_ (others false) ?_ ?_ ⟨?_, h.honest⟩
    · exact (h.nodup side).filter _
    · rw [live_live, same]
      exact h.live side
    · exact fun p there => h.registered side p (List.mem_filter.mp there).1
    · rw [same]
      exact h.listed side
    · exact iff_of_false Bool.false_ne_true (not_not.mpr listed)
  · have add : (a.registry side).add a.isAlive o =
        (true, (a.registry side).live a.isAlive ++ [o]) := by
      rw [Registry.add, if_neg (here.not.mpr listed)]
    have absent : o ∉ (a.registry side).live a.isAlive := fun there =>
      listed (here.mp (List.contains_iff_mem.mpr there))
    rw [add]
    refine h.set ?_ ?_ (others true) ?_ ?_ ⟨?_, h.honest⟩
    · exact List.nodup_append_comm.mp (List.nodup_cons.mpr ⟨absent, (h.nodup side).filter _⟩)
    · rw [enrolled_add listed, List.filter_append, ← h.live side, Registry.live, List.filter_append]
      exact congrArg (· ++ _) (live_live _ _)
    · intro p there
      obtain there | there := List.mem_append.mp there
      · exact h.registered side p (List.mem_filter.mp there).1
      · exact List.mem_singleton.mp there ▸ made
    · rw [enrolled_add listed]
      intro p there
      obtain there | there := List.mem_append.mp there
      · exact h.listed side p there
      · exact List.mem_singleton.mp there ▸ made
    · exact iff_of_true rfl listed

theorem Tracks.remove (h : Tracks calls a) (side : Side) (alive : a.isAlive o = true) :
    Tracks (.remove side o ((a.registry side).remove o).1 :: calls)
      (a.setRegistry side ((a.registry side).remove o).2) := by
  have new : enrolled side (.remove side o ((a.registry side).remove o).1 :: calls) =
      (enrolled side calls).filter (· != o) := if_pos rfl
  refine h.set (Registry.nodup_remove (h.nodup side)) ?_ ?_ ?_ ?_ ⟨?_, h.honest⟩
  · have swap (l : List Id) : (l.filter (· != o)).filter a.isAlive =
        (l.filter a.isAlive).filter (· != o) := List.filter_comm _ _ _
    rw [new, swap, ← h.live side]
    exact swap _
  · exact fun s other => if_neg other.symm
  · exact fun p there => h.registered side p (List.mem_filter.mp there).1
  · rw [new]
    exact fun p there => h.listed side p (List.mem_filter.mp there).1
  · rw [Call.IsTrue, ← h.mem_iff alive]
    exact List.contains_iff_mem

theorem Tracks.clear (h : Tracks calls a) :
    Tracks (.clear :: calls) { a with node := [], connectivity := [] } := by
  refine ⟨?_, ?_, ?_, nofun, h.kept, trivial, h.honest⟩
  · exact fun side => by cases side <;> exact List.nodup_nil
  · exact fun side => by cases side <;> rfl
  · exact fun side o there => by cases side <;> cases there

theorem Tracks.drop (h : Tracks calls a) (o : Id) : Tracks calls (a.drop o) := by
  refine h.shrink rfl ?_ (Nat.le_refl _) fun p there => h.kept p (List.mem_filter.mp there).1
  intro p _ alive
  rw [isAlive_iff] at alive ⊢
  exact alive.imp_left fun there => (List.mem_filter.mp there).1

theorem Tracks.perform (h : Tracks calls a) (v : Verb) {target : Option Id}
    (held : ∀ o ∈ target, o ∈ a.kept) :
    Tracks (callOf v target (a.perform v target).1 ++ calls) (a.perform v target).2 := by
  have alive {o : Id} (there : o ∈ a.kept) : a.isAlive o = true := isAlive_iff.mpr (.inl there)
  fun_cases Audience.perform a v target with
  | case1 side o fits added r eq =>
    have held := held o rfl
    have step := h.add side (alive held) (h.kept o held)
    rw [eq] at step
    exact step
  | case2 side o fits => exact h
  | case3 side o fits removed r eq =>
    have step := h.remove side (alive (held o rfl))
    rw [eq] at step
    exact step
  | case4 side o fits => exact h
  | case5 o => exact h.drop o
  | case6 target => exact h.clear
  | case7 target => exact h
  | case8 v clear count =>
    cases v with
    | clear => exact absurd rfl clear
    | count => exact absurd rfl count
    | add | remove | drop => exact h

theorem Tracks.run (h : Tracks calls a) (e : Errand) :
    Tracks (a.callIn e ++ calls) (a.run e).2 := by
  cases e with
  | none => exact h
  | some e =>
    refine h.perform e.1 fun o there => ?_
    exact List.mem_of_find?_eq_some there

theorem Tracks.runAll (h : Tracks calls a) (es : List Errand) :
    Tracks ((a.runAll es).2.1 ++ calls) (a.runAll es).2.2 := by
  induction es generalizing a calls with
  | nil => exact h
  | cons e es ih =>
    have step := ih (h.run e)
    rwa [← List.append_assoc] at step

theorem members_delivering : (a.delivering n).members = a.members := members_setRegistry _

theorem kept_delivering : (a.delivering n).kept = a.kept := kept_setRegistry _

theorem Tracks.delivering (h : Tracks calls a) (n : Notice) :
    Tracks calls (a.delivering n) := by
  refine (h.prune n.side).shrink ?_ ?_ (Nat.le_refl _) ?_
  · funext side
    cases side <;> rfl
  · intro o _ alive
    rw [isAlive_setRegistry]
    obtain kept | told := isAlive_iff.mp alive
    · exact isAlive_iff.mpr (.inl (kept_delivering ▸ kept))
    · exact (List.mem_filter.mp told).2
  · rw [kept_delivering, members_delivering]
    exact h.kept

/-- A notice is told to those who are registered and alive, and what they do is done one by one. -/
theorem Tracks.tells (h : Tracks calls a) (n : Notice) :
    (a.delivering n).Tells n (a.recipients n) (a.notify n).1
      ((a.delivering n).tellAll n (a.recipients n)).2 := by
  refine tells_tellAll fun o there => ?_
  rw [members_delivering]
  exact h.registered n.side o (List.mem_filter.mp there).1

/-- After a delivery the registries agree with the list and the calls that were made meanwhile. -/
theorem Tracks.notify (h : Tracks calls a) (n : Notice) :
    Tracks (a.callsIn n ++ calls) (a.notify n).2 := by
  have after := (h.tells n).after
  rw [errandsOf_congr members_delivering] at after
  have track := (h.delivering n).runAll ((a.recipients n).flatMap (a.errandsOf n))
  rw [← after] at track
  refine track.shrink (funext fun side => by cases side <;> rfl) ?_ (Nat.le_refl _) track.kept
  intro o _ alive
  obtain kept | nobody := isAlive_iff.mp alive
  · exact isAlive_iff.mpr (.inl kept)
  · cases nobody

/-- An observer that is made is on neither list. -/
theorem Tracks.make (h : Tracks calls a) (m : Member) : Tracks calls (a.make m) := by
  have added {b : Audience} (h : Tracks calls b) : Tracks calls
      { b with members := b.members ++ [m], kept := b.kept ++ [b.members.length] } := by
    refine h.shrink (funext fun side => by cases side <;> rfl) ?_ (by simp) ?_
    · intro o known alive
      obtain kept | told := isAlive_iff.mp alive
      · obtain kept | new := List.mem_append.mp kept
        · exact isAlive_iff.mpr (.inl kept)
        · exact absurd (List.mem_singleton.mp new) (Nat.ne_of_lt known)
      · exact isAlive_iff.mpr (.inr told)
    · intro o there
      rw [List.length_append]
      obtain kept | new := List.mem_append.mp there
      · exact Nat.lt_add_right _ (h.kept o kept)
      · exact List.mem_singleton.mp new ▸ Nat.lt_succ_self _
  rw [Audience.make]
  cases a.named? m.name with
  | none => exact added h
  | some o => exact added (h.drop o)

end Tracking

/-- The observers now do other things when they are told something: what they do may hang on
anything that has happened. -/
def relearn (a : Audience) (reaction : Id → Notice → List Deed) : Audience :=
  { a with members := a.members.mapIdx fun o m => { m with reaction := reaction o } }

/-- A history of observers and registries: the calls that were made, latest first, and what there is
then. Whoever makes a call keeps the observer that it is about alive. -/
inductive History : List Call → Audience → Prop
  | start : History [] empty
  | make {calls : List Call} {a : Audience} (m : Member) (past : History calls a) :
    History calls (a.make m)
  | perform {calls : List Call} {a : Audience} (v : Verb) (target : Option Id)
    (held : ∀ o ∈ target, o ∈ a.kept) (past : History calls a) :
    History (callOf v target (a.perform v target).1 ++ calls) (a.perform v target).2
  | relearn {calls : List Call} {a : Audience} (reaction : Id → Notice → List Deed)
    (past : History calls a) : History calls (a.relearn reaction)
  | notify {calls : List Call} {a : Audience} (n : Notice) (past : History calls a) :
    History (a.callsIn n ++ calls) (a.notify n).2

/-- What holds after every history. -/
structure Orderly (calls : List Call) (a : Audience) : Prop where
  /-- Nobody is registered twice; those who are registered and alive are those on the list who are
  alive, in its order; and every call has told the truth. -/
  now : Tracks calls a
  /-- A notice is told to everybody who is on the list and alive when it begins and takes notice, in
  order, and to nobody else. -/
  told : ∀ n, (a.notify n).1.filterMap Entry.told? =
    (((enrolled n.side calls).filter a.isAlive).filter fun o => !a.isSilent o).map fun o => (o, n)
  /-- Nobody is told twice. -/
  once : ∀ n, ((a.notify n).1.filterMap Entry.told?).Nodup
  /-- All that everybody who is told does up to a panic is done, one by one. -/
  did : ∀ n, (a.notify n).1.filterMap Entry.did? =
    ((a.delivering n).runAll ((a.recipients n).flatMap (a.errandsOf n))).1
  /-- What is registered after that is on the list with the calls that were made meanwhile. -/
  after : ∀ n, Tracks (a.callsIn n ++ calls) (a.notify n).2
  /-- An observer that was removed and is added again comes last. -/
  last : ∀ side o removed added between earlier,
    calls = between ++ .remove side o removed :: earlier →
    (∀ c ∈ between, ∀ d, c ≠ .add side o d) →
    enrolled side (.add side o added :: calls) = enrolled side calls ++ [o]
  /-- No mark of a delivery is left. -/
  unmarked : a.delivery = none ∧ ∀ n, (a.notify n).2.delivery = none

theorem History.tracks {calls : List Call} {a : Audience} (past : History calls a) :
    Tracks calls a := by
  induction past with
  | start => exact tracks_empty
  | make m _ ih => exact ih.make m
  | perform v target held _ ih => exact ih.perform v held
  | relearn reaction _ ih =>
    refine ih.shrink (funext fun side => by cases side <;> rfl) (fun _ _ alive => alive) ?_ ?_
    · simp [Audience.relearn]
    · simpa [Audience.relearn] using ih.kept
  | notify n _ ih => exact ih.notify n

/-- Between deliveries there is no mark of one. -/
theorem History.delivery {calls : List Call} {a : Audience} (past : History calls a) :
    a.delivery = none := by
  induction past with
  | start | notify => rfl
  | @make calls a m _ ih =>
    rw [Audience.make]
    cases a.named? m.name <;> exact ih
  | @perform calls a v target _ _ ih =>
    fun_cases Audience.perform a v target <;>
      first | exact ih | exact (delivery_setRegistry _).trans ih
  | relearn _ _ ih => exact ih

/-- After every history the registries are in order, and so they are after a delivery. -/
theorem orderly_of_history {calls : List Call} {a : Audience} (past : History calls a) :
    Orderly calls a := by
  have tracks := past.tracks
  have told (n : Notice) : (a.notify n).1.filterMap Entry.told? =
      (((enrolled n.side calls).filter a.isAlive).filter fun o => !a.isSilent o).map
        fun o => (o, n) := by
    have told := (tracks.tells n).told
    rw [isSilent_congr members_delivering] at told
    rw [told, recipients, tracks.live n.side]
  refine ⟨tracks, told, fun n => ?_, fun n => ?_, fun n => tracks.notify n, ?_, past.delivery,
    fun _ => rfl⟩
  · rw [told n]
    exact (((nodup_enrolled n.side calls).filter _).filter _).map fun o p same => by cases same; rfl
  · have did := (tracks.tells n).did
    rwa [errandsOf_congr members_delivering] at did
  · rintro side o removed added between earlier rfl unadded
    exact enrolled_add (not_mem_enrolled unadded)

/-- Three observers: the first removes the second and adds it again when it is told something, the
second panics before it empties the registries, and the third removes itself. -/
def threesome : Audience :=
  ((empty.make ⟨"first", false, fun _ =>
      [.act (.remove .node) (some "second"), .act (.add .node) (some "second")]⟩).make
    ⟨"second", false, fun _ => [.panic, .act .clear none]⟩).make
    ⟨"third", false, fun _ => [.act (.remove .node) none]⟩

/-- They are added one after the other and told something. -/
theorem orderly_threesome : ∃ calls a, History calls a ∧
    calls = [.remove .node 2 true, .add .node 1 true, .remove .node 1 true,
      .add .node 2 true, .add .node 1 true, .add .node 0 true] ∧
    a.node = [0, 1] ∧ Orderly calls a := by
  have made : History [] threesome := .make _ (.make _ (.make _ .start))
  have first := made.perform (.add .node) (some 0) (by rintro o ⟨⟩; decide)
  have second := first.perform (.add .node) (some 1) (by rintro o ⟨⟩; decide)
  have third := second.perform (.add .node) (some 2) (by rintro o ⟨⟩; decide)
  have told := third.notify (.peers 8)
  exact ⟨_, _, told, by decide +kernel, by decide +kernel, orderly_of_history told⟩

end Audience

end RemoteNode.Observer
