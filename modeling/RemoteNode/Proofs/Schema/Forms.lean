import RemoteNode.Proofs.Json.Reading
import RemoteNode.Schema.Json
import Mathlib.Data.List.Nodup
import Mathlib.Data.List.Perm.Basic

/-! A value has many JSON forms: the members of every object may stand in any order, and a member
that has a stand-in and holds it may be left out. All of them are read as the value. -/

namespace RemoteNode

open Json (Value Tree)

/-- An object with these members, in any order. -/
def Json.Value.Lists (members : List (String × Value)) (x : Value) : Prop :=
  ∃ ms, ms.Perm members ∧ x = .object ms

mutual

/-- A JSON form of a value: what it is written as, up to the order of members and the members left
out. -/
def Schema.Form {α : Type} : Schema α → α → Value → Prop
  | .list item, vs, x => ∃ xs, List.Forall₂ item.Form vs xs ∧ x = .array xs
  | .record members view, v, x => ∃ ms, members.Form (view.parts v) ms ∧ Value.Lists ms x
  | .variant tag cases view, v, x => ∃ ms, cases.Form tag (view.parts v) ms ∧ Value.Lists ms x
  | schema, v, x => x = schema.toJson v

/-- The members of a record, some of those left out that hold their stand-ins. -/
def Members.Form {β : Type} : Members β → β → List (String × Value) → Prop
  | .nil, _, ms => ms = []
  | .cons name schema missing rest, (v, vs), ms =>
    ∃ others, rest.Form vs others ∧
      ((∃ x, schema.Form v x ∧ ms = (name, x) :: others) ∨ missing = some v ∧ ms = others)

/-- The tag of a case with its members. -/
def Cases.Form {β : Type} (tag : String) : Cases β → β → List (String × Value) → Prop
  | .nil, v, _ => nomatch v
  | .cons name members _, .inl v, ms => ∃ others, members.Form v others ∧
    ms = (tag, .text name) :: others
  | .cons _ _ rest, .inr v, ms => rest.Form tag v ms

end

/-- The names of the cases in order. -/
def Cases.names {β : Type} : Cases β → List String
  | .nil => []
  | .cons name _ rest => name :: rest.names

mutual

/-- Nothing in the values is a double, no name stands twice where names tell things apart, and at
most `room` containers are nested. -/
def Schema.isPlain {α : Type} : Schema α → Nat → Bool
  | .double, _ => false
  | .list item, room + 1 => item.isPlain room
  | .record members _, room + 1 => members.isPlain room
  | .variant tag cases _, room + 1 => cases.isPlain tag room
  | .list _, 0 | .record .., 0 | .variant .., 0 => false
  | _, _ => true

def Members.isPlain {β : Type} : Members β → Nat → Bool
  | .nil, _ => true
  | .cons name schema _ rest, room =>
    decide (name ∉ rest.names) && schema.isPlain room && rest.isPlain room

def Cases.isPlain {β : Type} (tag : String) : Cases β → Nat → Bool
  | .nil, _ => true
  | .cons name members rest, room =>
    decide (name ∉ rest.names) && decide (tag ∉ members.names) && members.isPlain room &&
      rest.isPlain tag room

end

section Members
variable {α β : Type} {name : String} {schema : Schema α} {missing : Option α} {rest : Members β}
  {v : α} {vs : β} {x : Value} {others : List (String × Value)}

/-- A member is given with one of its forms. -/
theorem Members.Form.given (form : rest.Form vs others) (first : schema.Form v x) :
    (Members.cons name schema missing rest).Form (v, vs) ((name, x) :: others) :=
  ⟨others, form, .inl ⟨x, first, rfl⟩⟩

/-- A member that holds its stand-in is left out. -/
theorem Members.Form.omitted (form : rest.Form vs others) :
    (Members.cons name schema (some v) rest).Form (v, vs) others :=
  ⟨others, form, .inr ⟨rfl, rfl⟩⟩

end Members

mutual

/-- What a value is written as is one of its forms. -/
theorem Schema.form_toJson {α : Type} (schema : Schema α) (v : α) :
    schema.Form v (schema.toJson v) := by
  cases schema with
  | list item =>
    refine ⟨_, ?_, rfl⟩
    rw [List.forall₂_map_right_iff, List.forall₂_same]
    exact fun v _ => item.form_toJson v
  | record members view => exact ⟨_, members.form_toJson _, _, .refl _, rfl⟩
  | variant tag cases view => exact ⟨_, cases.form_toJson tag _, _, .refl _, rfl⟩
  | _ => exact rfl

theorem Members.form_toJson {β : Type} (members : Members β) (vs : β) :
    members.Form vs (members.toJson vs) := by
  cases members with
  | nil => exact rfl
  | cons name schema missing rest =>
    exact .given (rest.form_toJson vs.2) (schema.form_toJson vs.1)

theorem Cases.form_toJson {β : Type} (tag : String) (cs : Cases β) (v : β) :
    cs.Form tag v (cs.toJson tag v) := by
  cases cs with
  | nil => cases v
  | cons name members rest =>
    cases v with
    | inl v => exact ⟨_, members.form_toJson v, rfl⟩
    | inr v => exact rest.form_toJson tag v

end

/-! ### Forms fit -/

theorem Json.Value.Lists.fits {room : Nat} {members : List (String × Value)} {x : Value}
    (lists : Value.Lists members x) (fits : ∀ m ∈ members, m.2.Fits room) : x.Fits (room + 1) := by
  obtain ⟨ms, same, rfl⟩ := lists
  exact fun m there => fits m (same.mem_iff.mp there)

theorem Json.Value.fits_text {room : Nat} (s : String) : (Value.text s).Fits room := by
  cases room <;> exact trivial

theorem Json.Value.fits_natural {room n : Nat} (h : n < UInt64.size) :
    (Value.natural n).Fits room := by
  have least : Int64.minValue.toInt ≤ 0 := by decide
  cases room <;> exact ⟨Int.le_trans least (Int.natCast_nonneg n), Int.ofNat_lt.mpr h⟩

mutual

/-- The forms of plain values fit. -/
theorem Schema.Form.fits {α : Type} {schema : Schema α} {v : α} {x : Value} {room : Nat}
    (form : schema.Form v x) (plain : schema.isPlain room) : x.Fits room := by
  cases schema with
  | byte =>
    obtain rfl := form
    exact Value.fits_natural (Nat.lt_trans v.toNat_lt (by decide))
  | word16 =>
    obtain rfl := form
    exact Value.fits_natural (Nat.lt_trans v.toNat_lt (by decide))
  | word32 =>
    obtain rfl := form
    exact Value.fits_natural (Nat.lt_trans v.toNat_lt (by decide))
  | word64 =>
    obtain rfl := form
    exact Value.fits_natural v.toNat_lt
  | integer64 =>
    obtain rfl := form
    have high : v.toInt < UInt64.size := Int.lt_trans v.toInt_lt (by decide)
    cases room <;> exact ⟨v.minValue_le_toInt, high⟩
  | flag =>
    obtain rfl := form
    cases room <;> exact trivial
  | double => cases room <;> cases plain
  | text =>
    obtain rfl := form
    exact Value.fits_text v
  | bytes32 =>
    obtain rfl := form
    exact Value.fits_text v.text
  | list item =>
    cases room with
    | zero => cases plain
    | succ room =>
      obtain ⟨xs, each, rfl⟩ := form
      have fits (v) (x : Value) (form : item.Form v x) : x.Fits room := form.fits plain
      change ∀ x ∈ xs, x.Fits room
      induction each with
      | nil => exact List.forall_mem_nil _
      | cons first _ ih => exact List.forall_mem_cons.mpr ⟨fits _ _ first, ih⟩
  | record members view =>
    cases room with
    | zero => cases plain
    | succ room =>
      obtain ⟨ms, form, lists⟩ := form
      exact lists.fits (form.fits plain)
  | variant tag cs view =>
    cases room with
    | zero => cases plain
    | succ room =>
      obtain ⟨ms, form, lists⟩ := form
      exact lists.fits (form.fits plain)

theorem Members.Form.fits {β : Type} {members : Members β} {vs : β} {ms : List (String × Value)}
    {room : Nat} (form : members.Form vs ms) (plain : members.isPlain room) :
    ∀ m ∈ ms, m.2.Fits room := by
  cases members with
  | nil =>
    obtain rfl := form
    exact List.forall_mem_nil _
  | cons name schema missing rest =>
    simp only [Members.isPlain, Bool.and_eq_true] at plain
    obtain ⟨others, form, ⟨x, first, rfl⟩ | ⟨-, rfl⟩⟩ := form
    · exact List.forall_mem_cons.mpr ⟨first.fits plain.1.2, form.fits plain.2⟩
    · exact form.fits plain.2

theorem Cases.Form.fits {β : Type} {tag : String} {cs : Cases β} {v : β}
    {ms : List (String × Value)} {room : Nat} (form : cs.Form tag v ms)
    (plain : cs.isPlain tag room) : ∀ m ∈ ms, m.2.Fits room := by
  cases cs with
  | nil => cases v
  | cons name members rest =>
    simp only [Cases.isPlain, Bool.and_eq_true] at plain
    cases v with
    | inl v =>
      obtain ⟨others, form, rfl⟩ := form
      exact List.forall_mem_cons.mpr ⟨Value.fits_text name, form.fits plain.1.2⟩
    | inr v =>
      have form : rest.Form tag v ms := form
      exact form.fits plain.2

end

/-! ### Objects -/

theorem mapM_of_forall₂ {α β : Type} {f : α → Option β} {l : List α} {bs : List β}
    (each : List.Forall₂ (fun a b => f a = some b) l bs) : l.mapM f = some bs := by
  induction each with
  | nil => rfl
  | cons first _ ih => rw [List.mapM_cons, first, ih]; rfl

theorem mapM_eq_some_map {α β : Type} {f : α → Option β} {g : α → β} {l : List α}
    (h : ∀ a ∈ l, f a = some (g a)) : l.mapM f = some (l.map g) :=
  mapM_of_forall₂ (List.forall₂_map_right_iff.mpr (List.forall₂_same.mpr h))

section Lookup
variable {β γ : Type} {l l' : List (String × β)} {name : String} {b : β}

theorem lookup_of_mem (nodup : (l.map Prod.fst).Nodup) (there : (name, b) ∈ l) :
    l.lookup name = some b := by
  induction l with
  | nil => cases there
  | cons m l ih =>
    obtain ⟨absent, nodup⟩ := List.nodup_cons.mp nodup
    obtain rfl | there := List.mem_cons.mp there
    · exact List.lookup_cons_self
    · have other : name ≠ m.1 := by
        rintro rfl
        exact absent (List.mem_map.mpr ⟨_, there, rfl⟩)
      rw [List.lookup_cons, beq_eq_false_iff_ne.mpr other]
      exact ih nodup there

theorem lookup_of_perm (same : l.Perm l') (nodup : (l'.map Prod.fst).Nodup) :
    l.lookup name = l'.lookup name := by
  cases found : l'.lookup name with
  | none =>
    rw [List.lookup_eq_none_iff] at found ⊢
    exact fun m there => found m (same.mem_iff.mp there)
  | some b =>
    obtain ⟨before, after, rfl, -⟩ := List.lookup_eq_some_iff.mp found
    exact lookup_of_mem ((same.map _).nodup_iff.mpr nodup) (same.mem_iff.mpr (by simp))

theorem lookup_eq_none (absent : name ∉ l.map Prod.fst) : l.lookup name = none := by
  rw [List.lookup_eq_none_iff]
  exact fun m there => bne_iff_ne.mpr fun same => absent (List.mem_map.mpr ⟨m, there, same.symm⟩)

theorem lookup_map (f : β → γ) :
    (l.map fun m => (m.1, f m.2)).lookup name = (l.lookup name).map f := by
  induction l with
  | nil => rfl
  | cons m l ih =>
    rw [List.map_cons, List.lookup_cons, List.lookup_cons]
    cases name == m.1 with
    | true => rfl
    | false => exact ih

end Lookup

namespace Json

variable {members ns : List (String × Value)} {ts : List (String × Tree)} {name : String}

theorem valuesOf_of_not_mem (absent : name ∉ ts.map Prod.fst) : valuesOf name ts = [] := by
  have none : ts.filter (·.1 == name) = [] := by
    refine List.filter_eq_nil_iff.mpr fun m there same => ?_
    exact absent (beq_iff_eq.mp same ▸ List.mem_map_of_mem there)
  rw [valuesOf, none, List.map_nil]

theorem slot?_of_nodup (nodup : (ts.map Prod.fst).Nodup) :
    slot? name ts = some (ts.lookup name) := by
  have values : valuesOf name ts = (ts.lookup name).toList := by
    induction ts with
    | nil => rfl
    | cons m ts ih =>
      obtain ⟨absent, nodup⟩ := List.nodup_cons.mp nodup
      by_cases same : name = m.1
      · have others := valuesOf_of_not_mem (same ▸ absent)
        rw [valuesOf] at others
        rw [List.lookup_cons, valuesOf, List.filter_cons, if_pos (beq_iff_eq.mpr same.symm),
          List.map_cons, others, beq_iff_eq.mpr same]
        rfl
      · rw [List.lookup_cons, valuesOf, List.filter_cons, if_neg (by simpa using Ne.symm same),
          beq_eq_false_iff_ne.mpr same]
        exact ih nodup
  rw [slot?, values]
  cases ts.lookup name <;> rfl

/-- The keys of an object all have content. -/
theorem keyed?_memberTrees (ms : List (String × Value)) :
    keyed? (memberTrees ms) = some (ms.map fun m => (m.1, m.2.tree)) := by
  rw [keyed?, memberTrees_eq_map, List.mapM_map]
  exact mapM_eq_some_map fun _ _ => rfl

/-- The members of an object are found in any order. -/
theorem slot?_of_perm (nodup : (members.map Prod.fst).Nodup) (same : ns.Perm members)
    (name : String) :
    slot? name (ns.map fun m => (m.1, m.2.tree)) =
      some ((members.lookup name).map Value.tree) := by
  have keys : ((ns.map fun m => (m.1, m.2.tree)).map Prod.fst).Nodup := by
    rw [List.map_map]
    exact (same.map Prod.fst).nodup_iff.mpr nodup
  rw [slot?_of_nodup keys, lookup_map, lookup_of_perm same nodup]

/-- A tag is taken out of its object, wherever it stands. -/
theorem untag?_of_perm {tag : String} (nodup : (((tag, .text name) :: members).map Prod.fst).Nodup)
    (same : ns.Perm ((tag, .text name) :: members)) :
    ∃ ms, ms.Perm members ∧
      untag? tag (Value.object ns).tree = some (name, (Value.object ms).tree) := by
  have absent := (List.nodup_cons.mp nodup).1
  refine ⟨ns.filter (·.1 != tag), (same.filter _).trans (.of_eq ?_), ?_⟩
  · rw [List.filter_cons, if_neg (by simp), List.filter_eq_self]
    intro m there
    simpa using fun same : m.1 = tag => absent (List.mem_map.mpr ⟨m, there, same⟩)
  · have others : (memberTrees ns).filter (·.1 != some tag) =
        memberTrees (ns.filter (·.1 != tag)) := by
      rw [memberTrees_eq_map, memberTrees_eq_map, List.filter_map]
      congr 1
    rw [Value.tree, Value.tree, untag?, others, keyed?_memberTrees]
    simp only [Option.bind_eq_bind, Option.bind_some, slot?_of_perm nodup same,
      List.lookup_cons_self, Option.map_some]
    rfl

theorem slots?_of_perm (names : List String) (nodup : (members.map Prod.fst).Nodup)
    (same : ns.Perm members) :
    slots? names (Value.object ns).tree =
      some (names.map fun name => (members.lookup name).map Value.tree) := by
  rw [Value.tree, slots?, keyed?_memberTrees, Option.bind_some]
  exact mapM_eq_some_map fun name _ => slot?_of_perm nodup same name

end Json

/-! ### Forms are read -/

theorem Json.natural?_tree {n bound : Nat} (h : n < bound) (word : bound ≤ UInt64.size) :
    (Value.natural n).tree.natural? bound = some n := by
  have fits : (Value.natural n).Fits 0 := Value.fits_natural (Nat.lt_of_lt_of_le h word)
  rw [Value.tree, Tree.natural?, Numeral.integer?_ofInt fits.1 fits.2]
  exact if_pos h

theorem Json.int64?_tree (v : Int64) : (Value.integer v.toInt).tree.int64? = some v := by
  have high : v.toInt < UInt64.size := Int.lt_trans v.toInt_lt (by decide)
  rw [Value.tree, Tree.int64?, Numeral.integer?_ofInt v.minValue_le_toInt high]
  simp only [v.minValue_le_toInt, v.toInt_le, true_and, if_true, Int64.ofInt_toInt]

/-- Hexadecimal digits take one byte each, and none of them is the marker. -/
theorem Bytes32.digit_plain {id : Bytes32} {c : Char} (h : c ∈ id.digits) :
    c.utf8Size = 1 ∧ c ≠ 'x' := by
  have all : ∀ n ∈ List.range 16, (Text.Hex.digit n).utf8Size = 1 ∧ Text.Hex.digit n ≠ 'x' := by
    decide
  obtain ⟨b, -, there⟩ := List.mem_flatMap.mp h
  have byte := b.toNat_lt
  simp only [Text.Hex.ofByte, List.mem_cons, List.not_mem_nil, or_false] at there
  obtain rfl | rfl := there <;> exact all _ (List.mem_range.mpr (by omega))

theorem Bytes32.afterMarker_of_not_mem {cs : List Char} (absent : 'x' ∉ cs) :
    afterMarker cs = cs := by
  fun_cases afterMarker cs with
  | case1 rest => exact absurd (List.mem_cons_of_mem _ (List.mem_cons_self ..)) absent
  | case2 => rfl

theorem utf8ByteSize_ofList {cs : List Char} (ascii : ∀ c ∈ cs, c.utf8Size = 1) :
    (String.ofList cs).utf8ByteSize = cs.length := by
  induction cs with
  | nil => rfl
  | cons c cs ih =>
    obtain ⟨first, others⟩ := List.forall_mem_cons.mp ascii
    rw [String.ofList_cons, String.utf8ByteSize_append, String.utf8ByteSize_singleton, first,
      ih others, List.length_cons, Nat.add_comm]

/-- The written form of an identifier is read back. -/
theorem Bytes32.ofText_text (id : Bytes32) : ofText id.text = .ok id := by
  have size : (String.ofList id.digits).utf8ByteSize = 64 :=
    (utf8ByteSize_ofList fun c h => (digit_plain h).1).trans id.length_digits
  have bytes : Text.Hex.decode id.digits = some id.toList := Text.Hex.decode_encode id.toList
  rw [ofText, text, String.toList_ofList, afterMarker_of_not_mem fun h => (digit_plain h).2 rfl]
  simp only [size, bytes, ne_eq, not_true_eq_false, if_false, Option.bind_some, ofList?_toList]

/-- The members of a form have names of the record, in the order of the record. -/
theorem Members.Form.sublist {β : Type} {members : Members β} {vs : β}
    {ms : List (String × Value)} (form : members.Form vs ms) :
    (ms.map Prod.fst).Sublist members.names := by
  cases members with
  | nil =>
    obtain rfl := form
    exact .slnil
  | cons name schema missing rest =>
    obtain ⟨others, form, ⟨x, -, rfl⟩ | ⟨-, rfl⟩⟩ := form
    · exact form.sublist.cons_cons name
    · exact form.sublist.cons name

theorem Members.nodup_names {β : Type} {members : Members β} {room : Nat}
    (plain : members.isPlain room) : members.names.Nodup := by
  cases members with
  | nil => exact List.nodup_nil
  | cons name schema missing rest =>
    simp only [isPlain, Bool.and_eq_true, decide_eq_true_eq] at plain
    exact List.nodup_cons.mpr ⟨plain.1.1, nodup_names plain.2⟩

theorem Members.ofJson?_cons {α β : Type} {name : String} {schema : Schema α} {missing : Option α}
    {rest : Members β} {room : Nat} (slot : Option Tree) (slots : List (Option Tree)) :
    (cons name schema missing rest).ofJson? room (slot :: slots) =
      (match slot with
        | some t => schema.ofJson? room t
        | none => missing).bind fun v => (rest.ofJson? room slots).map (v, ·) := by
  cases slot <;> simp only [ofJson?, Option.map_eq_bind] <;> rfl

mutual

theorem Schema.Form.read {α : Type} {schema : Schema α} {v : α} {x : Value} {room : Nat}
    (form : schema.Form v x) (plain : schema.isPlain room) :
    schema.ofJson? room x.tree = some v := by
  cases schema with
  | byte =>
    obtain rfl := form
    rw [Schema.ofJson?, Schema.toJson, Json.natural?_tree v.toNat_lt (by decide), Option.map_some,
      UInt8.ofNat_toNat]
  | word16 =>
    obtain rfl := form
    rw [Schema.ofJson?, Schema.toJson, Json.natural?_tree v.toNat_lt (by decide), Option.map_some,
      UInt16.ofNat_toNat]
  | word32 =>
    obtain rfl := form
    rw [Schema.ofJson?, Schema.toJson, Json.natural?_tree v.toNat_lt (by decide), Option.map_some,
      UInt32.ofNat_toNat]
  | word64 =>
    obtain rfl := form
    rw [Schema.ofJson?, Schema.toJson, Json.natural?_tree v.toNat_lt (by decide), Option.map_some,
      UInt64.ofNat_toNat]
  | integer64 =>
    obtain rfl := form
    exact Json.int64?_tree v
  | flag | text =>
    obtain rfl := form
    rfl
  | double => cases room <;> cases plain
  | bytes32 =>
    obtain rfl := form
    change (Bytes32.ofText v.text).toOption = some v
    rw [Bytes32.ofText_text]
    rfl
  | list item =>
    cases room with
    | zero => cases plain
    | succ room =>
      obtain ⟨xs, each, rfl⟩ := form
      have read (v) (x : Value) (form : item.Form v x) : item.ofJson? room x.tree = some v :=
        form.read plain
      rw [Value.tree, Json.itemTrees_eq_map, Schema.ofJson?, List.mapM_map]
      exact mapM_of_forall₂ (each.flip.imp fun x v => read v x)
  | record members view =>
    cases room with
    | zero => cases plain
    | succ room =>
      obtain ⟨ms, form, ns, same, rfl⟩ := form
      have nodup := form.sublist.nodup (Members.nodup_names plain)
      rw [Schema.ofJson?, Json.slots?_of_perm members.names nodup same, Option.bind_some,
        Nat.add_sub_cancel, form.read plain, Option.map_some, view.make_parts]
  | variant tag cs view =>
    cases room with
    | zero => cases plain
    | succ room =>
      have fits := Schema.Form.fits form plain
      obtain ⟨ms, form, ns, same, rfl⟩ := form
      obtain ⟨name, others, rfl, -, nodup, read⟩ := form.read plain
      obtain ⟨kept, hkept⟩ := Option.isSome_iff_exists.mp (Json.Tree.isSome_toValue? fits)
      obtain ⟨rest, same, untagged⟩ := Json.untag?_of_perm nodup same
      rw [Schema.ofJson?, hkept, untagged]
      simp only [Option.bind_eq_bind, Option.bind_some, Nat.add_sub_cancel, read rest same,
        Option.map_some, view.make_parts]

theorem Members.Form.read {β : Type} {members : Members β} {vs : β} {ms : List (String × Value)}
    {room : Nat} (form : members.Form vs ms) (plain : members.isPlain room) :
    members.ofJson? room (members.names.map fun name => (ms.lookup name).map Value.tree) =
      some vs := by
  cases members with
  | nil => exact rfl
  | cons name schema missing rest =>
    simp only [Members.isPlain, Bool.and_eq_true, decide_eq_true_eq] at plain
    obtain ⟨⟨fresh, first⟩, plain⟩ := plain
    obtain ⟨others, form, given⟩ := form
    have absent : name ∉ others.map Prod.fst := fun there => fresh (form.sublist.subset there)
    have later : rest.names.map (fun name => (ms.lookup name).map Value.tree) =
        rest.names.map fun name => (others.lookup name).map Value.tree := by
      refine List.map_congr_left fun other there => ?_
      obtain ⟨x, -, rfl⟩ | ⟨-, rfl⟩ := given
      · have apart : other ≠ name := fun same => fresh (same ▸ there)
        rw [List.lookup_cons, beq_eq_false_iff_ne.mpr apart]
      · rfl
    rw [Members.names, List.map_cons, Members.ofJson?_cons, later, form.read plain]
    obtain ⟨x, form, rfl⟩ | ⟨rfl, rfl⟩ := given
    · rw [List.lookup_cons_self]
      exact congrArg (·.bind fun v => some (v, vs.2)) (form.read first)
    · rw [lookup_eq_none absent]
      rfl

/-- The tag of a case, and how its members are read. -/
theorem Cases.Form.read {β : Type} {tag : String} {cs : Cases β} {v : β}
    {ms : List (String × Value)} {room : Nat} (form : cs.Form tag v ms)
    (plain : cs.isPlain tag room) : ∃ name others, ms = (tag, .text name) :: others ∧
      name ∈ cs.names ∧ (ms.map Prod.fst).Nodup ∧ ∀ ns, ns.Perm others →
        cs.ofJson? room name (Value.object ns).tree = some v := by
  cases cs with
  | nil => cases v
  | cons name members rest =>
    simp only [Cases.isPlain, Bool.and_eq_true, decide_eq_true_eq] at plain
    obtain ⟨⟨⟨fresh, untagged⟩, plain⟩, others'⟩ := plain
    cases v with
    | inl v =>
      obtain ⟨others, form, rfl⟩ := form
      have nodup := form.sublist.nodup (Members.nodup_names plain)
      refine ⟨name, others, rfl, List.mem_cons_self .., ?_, fun ns same => ?_⟩
      · exact List.nodup_cons.mpr ⟨fun there => untagged (form.sublist.subset there), nodup⟩
      · rw [Cases.ofJson?, if_pos rfl, Json.slots?_of_perm members.names nodup same,
          Option.bind_some, form.read plain, Option.map_some]
    | inr v =>
      have form : rest.Form tag v ms := form
      obtain ⟨other, others, rfl, listed, nodup, read⟩ := form.read others'
      refine ⟨other, others, rfl, List.mem_cons_of_mem _ listed, nodup, fun ns same => ?_⟩
      have apart : other ≠ name := fun same => fresh (same ▸ listed)
      rw [Cases.ofJson?, if_neg apart, read ns same, Option.map_some]

end

/-- Every form of a plain value is read as the value. -/
theorem Schema.Form.ofJsonBytes? {α : Type} {schema : Schema α} {v : α} {x : Value}
    (form : schema.Form v x) (plain : schema.isPlain Json.nestingLimit) :
    schema.ofJsonBytes? x.toBytes = some v := by
  rw [Schema.ofJsonBytes?, Tree.parse_toBytes (form.fits plain), Option.bind_some]
  exact form.read plain

end RemoteNode
