import RemoteNode.Proofs.Json.Lexing

/-! The tokens of a value are read as the tree of that value, so compact JSON text is read as what
it was written for. -/

namespace RemoteNode.Json

mutual

/-- The tree of a value none of whose doubles is finite. -/
def Value.tree : Value → Tree
  | .null | .double _ => .null
  | .flag b => .flag b
  | .integer i => .number (.ofInt i)
  | .text s => .text (some s)
  | .array items => .array (itemTrees items)
  | .object members => .object (memberTrees members)

/-- The trees of the items of an array. -/
def itemTrees : List Value → List Tree
  | [] => []
  | item :: items => item.tree :: itemTrees items

/-- The trees of the members of an object. -/
def memberTrees : List (String × Value) → List (Option String × Tree)
  | [] => []
  | (key, value) :: members => (some key, value.tree) :: memberTrees members

end

theorem itemTrees_eq_map (items : List Value) : itemTrees items = items.map Value.tree := by
  induction items with
  | nil => rfl
  | cons item items ih => rw [itemTrees, ih, List.map_cons]

theorem memberTrees_eq_map (members : List (String × Value)) :
    memberTrees members = members.map fun m => (some m.1, m.2.tree) := by
  induction members with
  | nil => rfl
  | cons m members ih => rw [memberTrees, ih, List.map_cons]

namespace Parser

variable {frames : List Frame} {more ts : List Token} {t : Token} {s next : State}

theorem run_cons (h : step s t = some next) : run s (t :: more) = run next more := by
  rw [run, h, Option.bind_some]

theorem run_firstItem (other : t ≠ .closeArray) :
    run ⟨frames, .firstItem⟩ (t :: more) = run ⟨frames, .value⟩ (t :: more) := by
  rw [run, run, step, step]
  simp only [other, if_false]

/-- No value starts with the end of an array. -/
theorem exists_tokens_eq_cons (v : Value) : ∃ t ts, v.tokens = t :: ts ∧ t ≠ .closeArray := by
  cases v <;> exact ⟨_, _, rfl, nofun⟩

mutual

/-- The tokens of a value are read as its tree, which goes where the value stands. -/
theorem run_tokens (v : Value) (frames : List Frame) (more : List Token) :
    run ⟨frames, .value⟩ (v.tokens ++ more) = run (give frames v.tree) more := by
  cases v with
  | null | flag | integer | double | text => exact run_cons rfl
  | array items =>
    have opened : step ⟨frames, .value⟩ .openArray = some ⟨.array [] :: frames, .firstItem⟩ := rfl
    rw [Value.tokens, Value.tree, List.append_assoc]
    refine (run_cons opened).trans ?_
    cases items with
    | nil => exact run_cons rfl
    | cons item items =>
      rw [← List.nil_append (itemTrees _), ← List.reverse_nil,
        ← run_itemTokens (item :: items) (List.cons_ne_nil _ _)]
      obtain ⟨t, ts, front, other⟩ := exists_tokens_eq_cons item
      obtain ⟨us, whole⟩ :
          ∃ us, List.intercalate [.comma] (itemTokens (item :: items)) = t :: us := by
        rw [itemTokens, front]
        cases items with
        | nil => exact ⟨_, List.intercalate_singleton⟩
        | cons => exact ⟨_, List.intercalate_cons_cons⟩
      rw [whole]
      exact run_firstItem other
  | object members =>
    have opened : step ⟨frames, .value⟩ .openObject =
      some ⟨.object [] none :: frames, .firstKey⟩ := rfl
    rw [Value.tokens, Value.tree, List.append_assoc]
    refine (run_cons opened).trans ?_
    cases members with
    | nil => exact run_cons rfl
    | cons m members =>
      rw [← List.nil_append (memberTrees _), ← List.reverse_nil,
        ← run_memberTokens (m :: members) (List.cons_ne_nil _ _) [] none]
      cases members <;> rfl

theorem run_itemTokens (items : List Value) (nonempty : items ≠ []) (read : List Tree)
    (frames : List Frame) (more : List Token) :
    run ⟨.array read :: frames, .value⟩
        (List.intercalate [.comma] (itemTokens items) ++ .closeArray :: more) =
      run (give frames (.array (read.reverse ++ itemTrees items))) more := by
  cases items with
  | nil => exact absurd rfl nonempty
  | cons item items =>
    cases items with
    | nil =>
      rw [itemTokens, itemTokens, List.intercalate_singleton, run_tokens]
      refine (run_cons rfl).trans ?_
      rw [List.reverse_cons]
      rfl
    | cons second items =>
      have others := run_itemTokens (second :: items) (List.cons_ne_nil _ _) (item.tree :: read)
        frames more
      rw [List.reverse_cons, List.append_assoc] at others
      rw [itemTokens, itemTokens, List.intercalate_cons_cons, List.append_assoc, List.append_assoc,
        run_tokens]
      exact (run_cons rfl).trans others

theorem run_memberTokens (members : List (String × Value)) (nonempty : members ≠ [])
    (read : List (Option String × Tree)) (key : Option String) (frames : List Frame)
    (more : List Token) :
    run ⟨.object read key :: frames, .key⟩
        (List.intercalate [.comma] (memberTokens members) ++ .closeObject :: more) =
      run (give frames (.object (read.reverse ++ memberTrees members))) more := by
  cases members with
  | nil => exact absurd rfl nonempty
  | cons m members =>
    obtain ⟨name, value⟩ := m
    have first (more : List Token) : run ⟨.object read key :: frames, .key⟩
        (.text (some name) :: .colon :: value.tokens ++ more) =
          run ⟨.object ((some name, value.tree) :: read) (some name) :: frames, .separator⟩ more :=
      (run_cons rfl).trans ((run_cons rfl).trans (run_tokens value _ more))
    cases members with
    | nil =>
      rw [memberTokens, memberTokens, List.intercalate_singleton, first]
      refine (run_cons rfl).trans ?_
      rw [List.reverse_cons]
      rfl
    | cons second members =>
      have others := run_memberTokens (second :: members) (List.cons_ne_nil _ _)
        ((some name, value.tree) :: read) (some name) frames more
      rw [List.reverse_cons, List.append_assoc] at others
      rw [memberTokens, memberTokens, List.intercalate_cons_cons, List.append_assoc,
        List.append_assoc, first]
      exact (run_cons rfl).trans others

end

end Parser

/-- The compact text of a value that fits is read as the tree of the value. -/
theorem Tree.parse_toBytes {room : Nat} {v : Value} (fits : v.Fits room) :
    Tree.parse v.toBytes = some v.tree := by
  have read := Parser.run_tokens v [] []
  rw [List.append_nil] at read
  rw [parse, tokens?_toBytes fits, Option.bind_some, read]
  rfl

theorem isSome_mapM {α β : Type} {f : α → Option β} {l : List α} (h : ∀ a ∈ l, (f a).isSome) :
    (l.mapM f).isSome := by
  induction l with
  | nil => rfl
  | cons a l ih =>
    obtain ⟨first, others⟩ := List.forall_mem_cons.mp h
    obtain ⟨b, hb⟩ := Option.isSome_iff_exists.mp first
    obtain ⟨bs, hbs⟩ := Option.isSome_iff_exists.mp (ih others)
    simp [List.mapM_cons, hb, hbs]

/-- The tree of a value that fits can be kept as a value. -/
theorem Tree.isSome_toValue? {room : Nat} {v : Value} (fits : v.Fits room) :
    (v.tree.toValue? room).isSome := by
  have integer {i : Int} (low : Int64.minValue.toInt ≤ i) (high : i < UInt64.size) :
      (Numeral.ofInt i).toValue? = some (.integer i) := by
    rw [Numeral.toValue?, Numeral.integer?_ofInt low high]
  induction room generalizing v with
  | zero =>
    cases v with
    | array | object => exact fits.elim
    | integer i => rw [Value.tree, toValue?, integer fits.1 fits.2, Option.isSome_some]
    | _ => rfl
  | succ room ih =>
    cases v with
    | array items =>
      rw [Value.tree, toValue?, itemTrees_eq_map, Option.isSome_map]
      refine isSome_mapM fun t there => ?_
      obtain ⟨item, listed, rfl⟩ := List.mem_map.mp there
      exact ih (fits item listed)
    | object members =>
      have read : ((memberTrees members).mapM fun ((key, t) : Option String × Tree) => do
          let key ← key
          let v ← toValue? room t
          pure (key, v)).isSome := by
        rw [memberTrees_eq_map]
        refine isSome_mapM fun t there => ?_
        obtain ⟨m, listed, rfl⟩ := List.mem_map.mp there
        obtain ⟨v, hv⟩ := Option.isSome_iff_exists.mp (ih (fits m listed))
        simp [hv]
      obtain ⟨ms, hms⟩ := Option.isSome_iff_exists.mp read
      rw [Value.tree, toValue?, hms]
      rfl
    | integer i => rw [Value.tree, toValue?, integer fits.1 fits.2, Option.isSome_some]
    | _ => rfl

end RemoteNode.Json
