import RemoteNode.Session.PoolIds
import Mathlib.Data.List.Nodup
import Mathlib.Tactic.Tauto

/-! What a change of the pool reports, and what a repeated change does. The ids are dropped before
they are added, so an id that a change both drops and adds is there afterwards, and whether it was
there before or not, it is reported by every repetition. -/

namespace RemoteNode.Session

/-- An update says exactly how two sets of ids differ. -/
structure PoolUpdate.IsDifference (u : PoolUpdate) (before after : PoolIds) : Prop where
  apart : ∀ id ∈ u.added, id ∉ u.removed
  added (id : Hash) : id ∈ u.added ↔ id ∈ after ∧ id ∉ before
  removed (id : Hash) : id ∈ u.removed ↔ id ∈ before ∧ id ∉ after

namespace PoolIds
variable {gone new : List Hash} {ids : PoolIds} {x : Hash}

theorem dropAll_nil : dropAll [] ids = (ids, []) := rfl

theorem dropAll_cons (id : Hash) : dropAll (id :: gone) ids =
    if ids.contains id then
      ((dropAll gone (ids.erase id)).1, id :: (dropAll gone (ids.erase id)).2)
    else dropAll gone ids := rfl

theorem addAll_nil : addAll [] ids = (ids, []) := rfl

theorem addAll_cons (id : Hash) : addAll (id :: new) ids =
    if ids.contains id then addAll new ids
    else ((addAll new (insert id ids)).1, id :: (addAll new (insert id ids)).2) := rfl

theorem nodup_dropAll (h : ids.Nodup) : (dropAll gone ids).1.Nodup := by
  induction gone generalizing ids with
  | nil => exact h
  | cons id gone ih =>
    rw [dropAll_cons]
    split
    · exact ih (h.erase id)
    · exact ih h

theorem mem_dropAll (h : ids.Nodup) : x ∈ (dropAll gone ids).1 ↔ x ∈ ids ∧ x ∉ gone := by
  induction gone generalizing ids with
  | nil => simp [dropAll_nil]
  | cons id gone ih =>
    rw [dropAll_cons, List.mem_cons, not_or]
    split
    · rw [ih (h.erase id), h.mem_erase_iff]
      tauto
    · rename_i absent
      have absent : id ∉ ids := by simpa using absent
      rw [ih h]
      constructor
      · rintro ⟨inIds, rest⟩
        exact ⟨inIds, fun same => absent (same ▸ inIds), rest⟩
      · rintro ⟨inIds, -, rest⟩
        exact ⟨inIds, rest⟩

theorem dropAll_of_absent (h : ∀ id ∈ gone, id ∉ ids) : dropAll gone ids = (ids, []) := by
  induction gone with
  | nil => rfl
  | cons id gone ih =>
    rw [dropAll_cons, if_neg (by simpa using h id (List.mem_cons_self ..))]
    exact ih fun id inGone => h id (List.mem_cons_of_mem _ inGone)

theorem nodup_addAll (h : ids.Nodup) : (addAll new ids).1.Nodup := by
  induction new generalizing ids with
  | nil => exact h
  | cons id new ih =>
    rw [addAll_cons]
    split
    · exact ih h
    · rename_i absent
      exact ih (nodup_insert h (by simpa using absent))

theorem mem_addAll : x ∈ (addAll new ids).1 ↔ x ∈ ids ∨ x ∈ new := by
  induction new generalizing ids with
  | nil => simp [addAll_nil]
  | cons id new ih =>
    rw [addAll_cons, List.mem_cons]
    split
    · rename_i there
      have there : id ∈ ids := by simpa using there
      rw [ih]
      constructor
      · rintro (inIds | inNew)
        · exact .inl inIds
        · exact .inr (.inr inNew)
      · rintro (inIds | rfl | inNew)
        · exact .inl inIds
        · exact .inl there
        · exact .inr inNew
    · rw [ih, mem_insert]
      tauto

theorem addAll_of_present (h : ∀ id ∈ new, id ∈ ids) : addAll new ids = (ids, []) := by
  induction new with
  | nil => rfl
  | cons id new ih =>
    rw [addAll_cons, if_pos (by simpa using h id (List.mem_cons_self ..))]
    exact ih fun id inNew => h id (List.mem_cons_of_mem _ inNew)

theorem mem_dropped (h : ids.Nodup) : x ∈ (dropAll gone ids).2 ↔ x ∈ ids ∧ x ∈ gone := by
  induction gone generalizing ids with
  | nil => simp [dropAll_nil]
  | cons id gone ih =>
    rw [dropAll_cons]
    split
    · rename_i there
      have there : id ∈ ids := by simpa using there
      simp only [List.mem_cons, ih (h.erase id), h.mem_erase_iff]
      constructor
      · rintro (rfl | ⟨⟨-, inIds⟩, inGone⟩)
        · exact ⟨there, .inl rfl⟩
        · exact ⟨inIds, .inr inGone⟩
      · rintro ⟨inIds, rfl | inGone⟩
        · exact .inl rfl
        · by_cases same : x = id
          · exact .inl same
          · exact .inr ⟨⟨same, inIds⟩, inGone⟩
    · rename_i absent
      have absent : id ∉ ids := by simpa using absent
      rw [ih h, List.mem_cons]
      constructor
      · rintro ⟨inIds, inGone⟩
        exact ⟨inIds, .inr inGone⟩
      · rintro ⟨inIds, rfl | inGone⟩
        · exact absurd inIds absent
        · exact ⟨inIds, inGone⟩

theorem nodup_dropped (h : ids.Nodup) : (dropAll gone ids).2.Nodup := by
  induction gone generalizing ids with
  | nil => exact List.nodup_nil
  | cons id gone ih =>
    rw [dropAll_cons]
    split
    · refine List.nodup_cons.mpr ⟨fun again => ?_, ih (h.erase id)⟩
      exact (h.mem_erase_iff.mp ((mem_dropped (h.erase id)).mp again).1).1 rfl
    · exact ih h

theorem mem_added : x ∈ (addAll new ids).2 ↔ x ∉ ids ∧ x ∈ new := by
  induction new generalizing ids with
  | nil => simp [addAll_nil]
  | cons id new ih =>
    rw [addAll_cons]
    split
    · rename_i there
      have there : id ∈ ids := by simpa using there
      rw [ih, List.mem_cons]
      constructor
      · rintro ⟨absent, inNew⟩
        exact ⟨absent, .inr inNew⟩
      · rintro ⟨absent, rfl | inNew⟩
        · exact absurd there absent
        · exact ⟨absent, inNew⟩
    · rename_i absent
      have absent : id ∉ ids := by simpa using absent
      simp only [List.mem_cons, ih, mem_insert, not_or]
      constructor
      · rintro (rfl | ⟨⟨-, still⟩, inNew⟩)
        · exact ⟨absent, .inl rfl⟩
        · exact ⟨still, .inr inNew⟩
      · rintro ⟨still, rfl | inNew⟩
        · exact .inl rfl
        · by_cases same : x = id
          · exact .inl same
          · exact .inr ⟨⟨same, still⟩, inNew⟩

theorem nodup_added : (addAll new ids).2.Nodup := by
  induction new generalizing ids with
  | nil => exact List.nodup_nil
  | cons id new ih =>
    rw [addAll_cons]
    split
    · exact ih
    · refine List.nodup_cons.mpr ⟨fun again => ?_, ih⟩
      exact (mem_added.mp again).1 (mem_insert.mpr (.inl rfl))

/-- A change keeps every id once. -/
theorem nodup_change (h : ids.Nodup) : (ids.change new gone).1.Nodup :=
  nodup_addAll (nodup_dropAll h)

/-- After a change the added ids are there, and the others that were there and were not dropped. -/
theorem mem_change (h : ids.Nodup) :
    x ∈ (ids.change new gone).1 ↔ (x ∈ ids ∧ x ∉ gone) ∨ x ∈ new := by
  rw [PoolIds.change, mem_addAll, mem_dropAll h]

/-- A change that drops nothing that is there and adds nothing that is not changes nothing. -/
theorem change_eq_self (absent : ∀ id ∈ gone, id ∉ ids) (present : ∀ id ∈ new, id ∈ ids) :
    ids.change new gone = (ids, ⟨[], []⟩) := by
  rw [PoolIds.change, dropAll_of_absent absent]
  simp only [addAll_of_present present]

/-- A change reports as dropped what was there and is to be dropped. -/
theorem mem_removed_change (h : ids.Nodup) :
    x ∈ (ids.change new gone).2.removed ↔ x ∈ ids ∧ x ∈ gone := mem_dropped h

/-- A change reports as added what is to be added and was not there, or was dropped by it. -/
theorem mem_added_change (h : ids.Nodup) :
    x ∈ (ids.change new gone).2.added ↔ x ∈ new ∧ (x ∈ ids → x ∈ gone) := by
  rw [PoolIds.change, mem_added, mem_dropAll h]
  tauto

/-- A change reports the difference it makes if and only if it adds no id that it dropped. -/
theorem isDifference_change (h : ids.Nodup) :
    (ids.change new gone).2.IsDifference ids (ids.change new gone).1 ↔
      ∀ id ∈ ids, id ∈ new → id ∉ gone := by
  constructor
  · intro exact id there isNew isGone
    exact exact.apart id ((mem_added_change h).mpr ⟨isNew, fun _ => isGone⟩)
      ((mem_removed_change h).mpr ⟨there, isGone⟩)
  · intro apart
    refine ⟨fun id added removed => ?_, fun id => ?_, fun id => ?_⟩
    · obtain ⟨there, isGone⟩ := (mem_removed_change h).mp removed
      exact apart id there ((mem_added_change h).mp added).1 isGone
    · rw [mem_added_change h, mem_change h]
      have := apart id
      tauto
    · rw [mem_removed_change h, mem_change h]
      have := apart id
      tauto

/-- A repeated change has the same ids. -/
theorem change_change_perm (h : ids.Nodup) :
    ((ids.change new gone).1.change new gone).1.Perm (ids.change new gone).1 := by
  have once : (ids.change new gone).1.Nodup := nodup_change h
  refine (List.perm_ext_iff_of_nodup (nodup_change once) once).mpr fun id => ?_
  rw [mem_change once, mem_change h]
  tauto

/-- A repeated change reports nothing if and only if it drops none of the ids it adds. -/
theorem isEmpty_change_change (h : ids.Nodup) :
    ((ids.change new gone).1.change new gone).2.isEmpty ↔ ∀ id ∈ new, id ∉ gone := by
  have once : (ids.change new gone).1.Nodup := nodup_change h
  rw [PoolUpdate.isEmpty, Bool.and_eq_true, List.isEmpty_iff, List.isEmpty_iff,
    List.eq_nil_iff_forall_not_mem, List.eq_nil_iff_forall_not_mem]
  simp only [mem_added_change once, mem_removed_change once, mem_change h]
  constructor
  · intro ⟨_, nothingRemoved⟩ id isNew isGone
    exact nothingRemoved id ⟨.inr isNew, isGone⟩
  · intro apart
    refine ⟨fun id => ?_, fun id => ?_⟩
    · have := apart id
      tauto
    · have := apart id
      tauto

/-- A change that is repeated has the same ids again, and reports nothing if and only if it drops
none of the ids it adds. The first time it reports the difference it makes if and only if it adds no
known id that it drops. -/
theorem change_twice (known : PoolIds) (new gone : List Hash) (h : known.Nodup) :
    let once := known.change new gone
    let twice := once.1.change new gone
    twice.1.Perm once.1 ∧ (twice.2.isEmpty ↔ ∀ id ∈ new, id ∉ gone) ∧
      (once.2.IsDifference known once.1 ↔ ∀ id ∈ known, id ∈ new → id ∉ gone) :=
  ⟨change_change_perm h, isEmpty_change_change h, isDifference_change h⟩

/-- A change that adds one id twice and drops another one. -/
theorem change_twice_apart :
    let one : Hash := ⟨List.replicate 32 1, rfl⟩
    let once := PoolIds.change [one, one] [.zero] [.zero]
    (once.1.change [one, one] [.zero]).2.isEmpty ∧ once.2.IsDifference [.zero] once.1 := by
  intro one once
  obtain ⟨-, empty, exact⟩ := change_twice [.zero] [one, one] [.zero] (List.nodup_singleton _)
  exact ⟨empty.mpr (by decide), exact.mpr (by decide)⟩

/-- A change that drops and adds a known id reports it both times, and changes nothing. -/
theorem exists_not_change_twice : ∃ (known : PoolIds) (new gone : List Hash),
    known.Nodup ∧ (known.change new gone).1 = known ∧
      ((known.change new gone).1.change new gone).2.isEmpty = false ∧
      ¬ (known.change new gone).2.IsDifference known (known.change new gone).1 := by
  refine ⟨[.zero], [.zero], [.zero], by decide, by decide, by decide, fun exact => ?_⟩
  exact absurd ((exact.added .zero).mp (by decide)).2 (by decide)

end PoolIds

end RemoteNode.Session
