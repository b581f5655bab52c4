/-!
Text cut in two at the first or the last place of a character, which belongs to neither part.
-/

namespace RemoteNode.Text

/-- The text before a character and, if it occurs, the text after its first place. -/
def cut (sep : Char) (cs : List Char) : List Char × Option (List Char) :=
  match cs.dropWhile (· != sep) with
  | [] => (cs.takeWhile (· != sep), none)
  | _ :: after => (cs.takeWhile (· != sep), some after)

/-- The text before and after the last place of a character. -/
def cutLast (sep : Char) (cs : List Char) : Option (List Char × List Char) :=
  match cut sep cs.reverse with
  | (after, some before) => some (before.reverse, after.reverse)
  | (_, none) => none

/-- The first part holds no separator. -/
theorem not_mem_cut (sep : Char) (cs : List Char) : sep ∉ (cut sep cs).1 := by
  have all : (cs.takeWhile (· != sep)).all (· != sep) = true := List.all_takeWhile
  have h : sep ∉ cs.takeWhile (· != sep) := fun hm => by
    simpa using List.all_eq_true.1 all sep hm
  unfold cut
  split <;> exact h

/-- Nothing is lost. -/
theorem eq_of_cut {sep : Char} {cs before after : List Char}
    (h : cut sep cs = (before, some after)) : cs = before ++ sep :: after := by
  have split_eq : cs.takeWhile (· != sep) ++ cs.dropWhile (· != sep) = cs :=
    List.takeWhile_append_dropWhile
  unfold cut at h
  split at h
  · simp at h
  · rename_i c rest hd
    have hc : c = sep := by
      have := List.head?_dropWhile_not (· != sep) cs
      simpa [hd] using this
    obtain ⟨rfl, rfl⟩ : cs.takeWhile (· != sep) = before ∧ rest = after := by simpa using h
    rw [hd, hc] at split_eq
    exact split_eq.symm

/-- A text without the separator stays whole. -/
theorem cut_of_not_mem {sep : Char} {cs : List Char} (h : sep ∉ cs) : cut sep cs = (cs, none) := by
  have all : ∀ c ∈ cs, (c != sep) = true := fun c hc => by
    simp only [bne_iff_ne, ne_eq]
    rintro rfl
    exact h hc
  have ht : (cs ++ []).takeWhile (· != sep) = cs ++ [].takeWhile (· != sep) :=
    List.takeWhile_append_of_pos all
  have hd : (cs ++ []).dropWhile (· != sep) = [].dropWhile (· != sep) :=
    List.dropWhile_append_of_pos all
  rw [List.append_nil, List.takeWhile_nil, List.append_nil] at ht
  rw [List.append_nil, List.dropWhile_nil] at hd
  simp [cut, ht, hd]

/-- The first separator is where a text is cut. -/
theorem cut_append {sep : Char} {before : List Char} (h : sep ∉ before) (after : List Char) :
    cut sep (before ++ sep :: after) = (before, some after) := by
  have all : ∀ c ∈ before, (c != sep) = true := fun c hc => by
    simp only [bne_iff_ne, ne_eq]
    rintro rfl
    exact h hc
  have ht : (before ++ sep :: after).takeWhile (· != sep) = before := by
    rw [List.takeWhile_append_of_pos all]; simp
  have hd : (before ++ sep :: after).dropWhile (· != sep) = sep :: after := by
    rw [List.dropWhile_append_of_pos all]; simp
  simp [cut, ht, hd]

/-- The last separator is where a text is cut from its end. -/
theorem cutLast_append {sep : Char} {after : List Char} (h : sep ∉ after) (before : List Char) :
    cutLast sep (before ++ sep :: after) = some (before, after) := by
  have hr : sep ∉ after.reverse := by simpa using h
  have : (before ++ sep :: after).reverse = after.reverse ++ sep :: before.reverse := by simp
  simp [cutLast, this, cut_append hr]

/-- Nothing is lost, and the second part holds no separator. -/
theorem eq_of_cutLast {sep : Char} {cs before after : List Char}
    (h : cutLast sep cs = some (before, after)) : cs = before ++ sep :: after ∧ sep ∉ after := by
  unfold cutLast at h
  split at h
  · rename_i a b hc
    obtain ⟨rfl, rfl⟩ : b.reverse = before ∧ a.reverse = after := by simpa using h
    refine ⟨?_, ?_⟩
    · have := congrArg List.reverse (eq_of_cut hc)
      simpa using this
    · have := not_mem_cut sep cs.reverse
      rw [hc] at this
      simpa using this
  · simp at h

example : cut '=' ['a', '=', 'b', '=', 'c'] = (['a'], some ['b', '=', 'c']) := by decide
example : cut '=' ['a'] = (['a'], none) := by decide
example : cutLast ':' ['a', ':', 'b', ':', 'c'] = some (['a', ':', 'b'], ['c']) := by decide

end RemoteNode.Text
