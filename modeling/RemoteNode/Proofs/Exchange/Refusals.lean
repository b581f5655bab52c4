import RemoteNode.Proofs.Exchange.Documents

/-! Refusals inside an envelope. A reply is read as a whole before anything asks whether it holds a
refusal. So a refusal is told with its code and message where everything else in the reply can be
read, and where something cannot, nothing of it is told. -/

namespace RemoteNode

namespace Json

/-! ### Objects without a key given twice -/

/-- Members whose keys have these contents. -/
def entries (ms : List (String × Tree)) : List (Option String × Tree) :=
  ms.map fun m => (some m.1, m.2)

/-- No key stands twice. -/
def Distinct (members : List (Option String × Tree)) : Prop := (members.filterMap Prod.fst).Nodup

section Entries
variable {members : List (Option String × Tree)} {ms : List (String × Tree)} {name : String}
  {t : Tree}

theorem exists_entries (keys : ∀ m ∈ members, m.1.isSome) : ∃ ms, members = entries ms := by
  refine ⟨members.map fun m => (m.1.getD "", m.2), ?_⟩
  rw [entries, List.map_map]
  refine (List.map_id' members).symm.trans (List.map_congr_left fun m there => ?_)
  obtain ⟨key, hkey⟩ := Option.isSome_iff_exists.mp (keys m there)
  simp only [Function.comp_apply, hkey, Option.getD_some]
  exact Prod.ext hkey rfl

theorem keyed?_entries : keyed? (entries ms) = some ms := by
  rw [keyed?, entries, List.mapM_map]
  exact (mapM_eq_some_map (g := id) fun _ _ => rfl).trans (congrArg some (List.map_id _))

/-- Keys without content cannot be read. -/
theorem keyed?_eq_none (illegible : ¬ ∀ m ∈ members, m.1.isSome) : keyed? members = none := by
  induction members with
  | nil => exact absurd (List.forall_mem_nil _) illegible
  | cons m members ih =>
    obtain ⟨key, t⟩ := m
    cases key with
    | none => rfl
    | some key =>
      have others : ¬ ∀ m ∈ members, m.1.isSome := fun all =>
        illegible (List.forall_mem_cons.mpr ⟨rfl, all⟩)
      have ih := ih others
      rw [keyed?] at ih
      rw [keyed?, List.mapM_cons, ih]
      rfl

theorem mem_entries_iff : (some name, t) ∈ entries ms ↔ (name, t) ∈ ms := by
  constructor
  · intro listed
    obtain ⟨⟨key, v⟩, there, same⟩ := List.mem_map.mp listed
    cases same
    exact there
  · exact fun there => List.mem_map.mpr ⟨_, there, rfl⟩

theorem distinct_entries_iff : Distinct (entries ms) ↔ (ms.map Prod.fst).Nodup := by
  have keys : (entries ms).filterMap Prod.fst = ms.map Prod.fst := by
    rw [entries, List.filterMap_map]
    exact congrFun (List.filterMap_eq_map (f := Prod.fst)) ms
  rw [Distinct, keys]

/-- No key of an object is written twice if none is given twice. -/
theorem distinct_memberTrees {vs : List (String × Value)} (distinct : (vs.map Prod.fst).Nodup) :
    Distinct (memberTrees vs) := by
  have same : memberTrees vs = entries (vs.map fun m => (m.1, m.2.tree)) := by
    rw [memberTrees_eq_map, entries, List.map_map]
    rfl
  rw [same, distinct_entries_iff, List.map_map]
  exact distinct

theorem slots?_entries (names : List String) (distinct : Distinct (entries ms)) :
    slots? names (.object (entries ms)) = some (names.map fun name => ms.lookup name) := by
  rw [slots?, keyed?_entries, Option.bind_some]
  exact mapM_eq_some_map fun name _ => slot?_of_nodup (distinct_entries_iff.mp distinct)

theorem lookup_eq_some_iff (distinct : Distinct (entries ms)) :
    ms.lookup name = some t ↔ (some name, t) ∈ entries ms := by
  rw [mem_entries_iff]
  constructor
  · intro found
    obtain ⟨before, after, rfl, -⟩ := List.lookup_eq_some_iff.mp found
    simp
  · exact lookup_of_mem (distinct_entries_iff.mp distinct)

end Entries

/-! ### Integers -/

/-- The integer that a whole numeral is written as. -/
def Numeral.written (n : Numeral) : Int :=
  if n.negative then -(value n.whole : Int) else value n.whole

theorem Numeral.written_ofInt (i : Int) : (ofInt i).written = i := by
  rw [written, ofInt, value_decimalDigits]
  simp only [decide_eq_true_eq]
  omega

/-- A negative zero is not read as an integer. -/
def Numeral.isNegativeZero (n : Numeral) : Bool := n.negative && value n.whole == 0

/-- A whole numeral is read as the word that it is written as, unless it is a negative zero. -/
theorem int64?_number {n : Numeral} {code : Int64} (whole : n.isWhole = true)
    (written : n.written = code.toInt) :
    (Tree.number n).int64? = if n.isNegativeZero then none else some code := by
  have low := code.minValue_le_toInt
  have high := code.toInt_le
  have integer : n.integer? = if n.isNegativeZero then none else some code.toInt := by
    have least : Int64.minValue.toInt = -9223372036854775808 := by decide
    have greatest : Int64.maxValue.toInt = 9223372036854775807 := by decide
    rw [Numeral.written] at written
    simp only [Numeral.integer?, whole, Numeral.isNegativeZero, ← written, if_true, least,
      Bool.and_eq_true, beq_iff_eq, UInt64.size]
    cases negative : n.negative with
    | false =>
      simp only [negative, Bool.false_eq_true, if_false, false_and] at written ⊢
      rw [if_pos (by omega)]
    | true =>
      simp only [negative, if_true, true_and] at written ⊢
      by_cases zero : Numeral.value n.whole = 0
      · rw [if_neg (by omega), if_pos zero]
      · rw [if_pos (by omega), if_neg zero]
  rw [Tree.int64?, integer]
  cases n.isNegativeZero with
  | true => rfl
  | false =>
    simp only [Bool.false_eq_true, if_false, low, high, and_self, if_true, Int64.ofInt_toInt]

end Json

namespace Exchange.Envelope

open Json (Tree Value entries Distinct)

/-! ### Bodies with a refusal -/

/-- A body with a refusal in it: an object whose member `error` is an object with a whole number as
its code and a text as its message. Neither object has a key twice; whatever else they hold. -/
structure Refused where
  bytes : List UInt8
  members : List (Option String × Tree)
  inner : List (Option String × Tree)
  numeral : Json.Numeral
  code : Int64
  message : String
  parsed : Tree.parse bytes = some (.object members)
  distinct : Distinct members
  error : (some "error", .object inner) ∈ members
  distinctInner : Distinct inner
  number : (some "code", .number numeral) ∈ inner
  whole : numeral.isWhole = true
  written : numeral.written = code.toInt
  text : (some "message", .text (some message)) ∈ inner

/-- What stands under a name, if anything does, is null or can be read. -/
def Readable {α : Type} (members : List (Option String × Tree)) (name : String)
    (read : Tree → Option α) : Prop :=
  ∀ t, (some name, t) ∈ members → t = .null ∨ (read t).isSome

/-- Everything in a body with a refusal can be read. -/
structure Refused.Legible {α : Type} (b : Refused) (read : Nat → Tree → Option α) : Prop where
  /-- All keys have content. -/
  keys : ∀ m ∈ b.members, m.1.isSome
  innerKeys : ∀ m ∈ b.inner, m.1.isSome
  /-- The code is not written as a negative zero. -/
  code : b.numeral.isNegativeZero = false
  /-- The identifier nests no deeper than a value may, and a value holds its numbers and texts. -/
  id : Readable b.members "id" (Tree.toValue? (Json.nestingLimit - 1))
  version : Readable b.members "jsonrpc" Tree.text?
  /-- The result has the form of an answer. -/
  result : Readable b.members "result" (read (Json.nestingLimit - 1))

section Entries
variable {α β : Type} {f : Tree → Option β} {read : Nat → Tree → Option α} {room : Nat}
  {name message : String} {n : Json.Numeral} {ms : List (String × Tree)}

theorem isSome_optional?_lookup (distinct : Distinct (entries ms)) :
    (optional? f (ms.lookup name)).isSome ↔ Readable (entries ms) name f := by
  rw [isSome_optional?_iff, Readable]
  exact forall_congr' fun t => imp_congr_left (Json.lookup_eq_some_iff distinct)

/-- How a refusal is read from an object without a key given twice. -/
theorem Refusal.ofJson?_entries (distinct : Distinct (entries ms))
    (number : (some "code", .number n) ∈ entries ms)
    (text : (some "message", .text (some message)) ∈ entries ms) :
    Refusal.schema.ofJson? room (.object (entries ms)) =
      (Tree.number n).int64?.map fun code => ⟨code, message⟩ := by
  rw [← Json.lookup_eq_some_iff distinct] at number text
  rw [schema, Schema.ofJson?, Json.slots?_entries _ distinct]
  simp only [Members.names, List.map_cons, List.map_nil, number, text, Option.bind_some]
  simp only [Members.ofJson?, Schema.ofJson?, List.tail_cons, Tree.text?]
  cases (Tree.number n).int64? <;> rfl

/-- How a reply is read from one. -/
theorem Reply.ofJson?_entries (distinct : Distinct (entries ms)) :
    Reply.ofJson? read room (.object (entries ms)) =
      (optional? (Tree.toValue? (room - 1)) (ms.lookup "id")).bind fun id =>
      (optional? Tree.text? (ms.lookup "jsonrpc")).bind fun version =>
      (optional? (read (room - 1)) (ms.lookup "result")).bind fun value =>
      (optional? (Refusal.schema.ofJson? (room - 1)) (ms.lookup "error")).map fun error =>
        ⟨id, version, value, error⟩ := by
  rw [Reply.ofJson?, Json.slots?_entries _ distinct]
  simp only [List.map_cons, List.map_nil, Option.bind_eq_bind, Option.bind_some, Option.pure_def,
    Option.map_eq_bind, Function.comp_def]

end Entries

namespace Refused
variable {α : Type} {read : Nat → Tree → Option α} {room : Nat} {reply : Reply α} (b : Refused)

/-- The refusal is read if its keys have content and its code is not a negative zero. -/
theorem ofJson?_inner (keys : ∀ m ∈ b.inner, m.1.isSome) :
    Refusal.schema.ofJson? room (.object b.inner) =
      if b.numeral.isNegativeZero then none else some ⟨b.code, b.message⟩ := by
  obtain ⟨ms, hms⟩ := Json.exists_entries keys
  have distinct : Distinct (entries ms) := hms ▸ b.distinctInner
  rw [hms, Refusal.ofJson?_entries distinct (hms ▸ b.number) (hms ▸ b.text),
    Json.int64?_number b.whole b.written]
  split <;> rfl

theorem optional?_inner {f : Tree → Option Refusal} :
    optional? f (some (.object b.inner)) = (f (.object b.inner)).map some := rfl

/-- Where all keys have content, the refusal stands under its own. -/
theorem exists_entries_members (keys : ∀ m ∈ b.members, m.1.isSome) :
    ∃ ms, b.members = entries ms ∧ Distinct (entries ms) ∧
      ms.lookup "error" = some (.object b.inner) := by
  obtain ⟨ms, hms⟩ := Json.exists_entries keys
  have distinct : Distinct (entries ms) := hms ▸ b.distinct
  exact ⟨ms, hms, distinct, (Json.lookup_eq_some_iff distinct).mpr (hms ▸ b.error)⟩

/-- A body that is read holds the refusal, and everything in it could be read. -/
theorem of_ofJson? (whole : Reply.ofJson? read Json.nestingLimit (.object b.members) = some reply) :
    b.Legible read ∧ reply.error = some ⟨b.code, b.message⟩ := by
  by_cases keys : ∀ m ∈ b.members, m.1.isSome
  · obtain ⟨ms, hms, distinct, error⟩ := b.exists_entries_members keys
    rw [hms, Reply.ofJson?_entries distinct, error, b.optional?_inner] at whole
    obtain ⟨id, hid, whole⟩ := Option.bind_eq_some_iff.mp whole
    obtain ⟨version, hversion, whole⟩ := Option.bind_eq_some_iff.mp whole
    obtain ⟨value, hvalue, whole⟩ := Option.bind_eq_some_iff.mp whole
    obtain ⟨refusal, hrefusal, rfl⟩ := Option.map_eq_some_iff.mp whole
    obtain ⟨inner, hinner, rfl⟩ := Option.map_eq_some_iff.mp hrefusal
    have innerKeys : ∀ m ∈ b.inner, m.1.isSome := by
      by_contra illegible
      rw [Refusal.schema, Schema.ofJson?, Json.slots?, Json.keyed?_eq_none illegible] at hinner
      cases hinner
    rw [b.ofJson?_inner innerKeys] at hinner
    split at hinner
    · cases hinner
    · rename_i code
      cases hinner
      refine ⟨⟨keys, innerKeys, by simpa using code, ?_, ?_, ?_⟩, rfl⟩
      · rw [hms, ← isSome_optional?_lookup distinct, hid]
        rfl
      · rw [hms, ← isSome_optional?_lookup distinct, hversion]
        rfl
      · rw [hms, ← isSome_optional?_lookup distinct, hvalue]
        rfl
  · rw [Reply.ofJson?, Json.slots?, Json.keyed?_eq_none keys] at whole
    cases whole

/-- Where everything can be read, the body is. -/
theorem Legible.isSome_ofJson? (legible : b.Legible read) :
    (Reply.ofJson? read Json.nestingLimit (.object b.members)).isSome := by
  obtain ⟨ms, hms, distinct, error⟩ := b.exists_entries_members legible.keys
  have readable {β : Type} {f : Tree → Option β} {name : String}
      (h : Readable b.members name f) : ∃ v, optional? f (ms.lookup name) = some v := by
    rw [hms, ← isSome_optional?_lookup distinct] at h
    exact Option.isSome_iff_exists.mp h
  obtain ⟨id, hid⟩ := readable legible.id
  obtain ⟨version, hversion⟩ := readable legible.version
  obtain ⟨value, hvalue⟩ := readable legible.result
  rw [hms, Reply.ofJson?_entries distinct, error, b.optional?_inner,
    b.ofJson?_inner legible.innerKeys, legible.code, hid, hversion, hvalue]
  rfl

end Refused

/-! ### What is told of a refusal -/

/-- What a refusal is written as. -/
def Refusal.value (code : Int64) (message : String) : Value :=
  .object [("code", .integer code.toInt), ("message", .text message)]

theorem Refusal.fits_value (code : Int64) (message : String) :
    (Refusal.value code message).Fits (Json.nestingLimit - 1) := by
  have high : code.toInt < UInt64.size := Int.lt_trans code.toInt_lt (by decide)
  exact List.forall_mem_cons.mpr ⟨⟨code.minValue_le_toInt, high⟩,
    List.forall_mem_cons.mpr ⟨trivial, List.forall_mem_nil _⟩⟩

theorem Refused.parse_before {others : List (String × Value)} (code : Int64) (message : String)
    (fits : ∀ m ∈ others, m.2.Fits (Json.nestingLimit - 1)) :
    Tree.parse (Value.object (("error", Refusal.value code message) :: others)).toBytes =
      some (.object (Json.memberTrees (("error", Refusal.value code message) :: others))) := by
  have whole : (Value.object (("error", Refusal.value code message) :: others)).Fits
      Json.nestingLimit := List.forall_mem_cons.mpr ⟨Refusal.fits_value code message, fits⟩
  exact Tree.parse_toBytes whole

theorem Refusal.nodup_keys : ["code", "message"].Nodup := by decide

/-- A body in which a refusal is written before other members. -/
def Refused.before (others : List (String × Value)) (code : Int64) (message : String)
    (fits : ∀ m ∈ others, m.2.Fits (Json.nestingLimit - 1))
    (distinct : ("error" :: others.map Prod.fst).Nodup) : Refused where
  bytes := (Value.object (("error", Refusal.value code message) :: others)).toBytes
  members := Json.memberTrees (("error", Refusal.value code message) :: others)
  inner := Json.memberTrees [("code", .integer code.toInt), ("message", .text message)]
  numeral := .ofInt code.toInt
  code := code
  message := message
  parsed := Refused.parse_before code message fits
  distinct := Json.distinct_memberTrees distinct
  error := List.mem_cons_self ..
  distinctInner := Json.distinct_memberTrees Refusal.nodup_keys
  number := List.mem_cons_self ..
  whole := rfl
  written := Json.Numeral.written_ofInt code.toInt
  text := List.mem_cons_of_mem _ (List.mem_cons_self ..)

/-- A refusal with an identifier and a null for a result. -/
def Refused.unanswered : Refused :=
  .before [("id", .integer 1), ("result", .null)] (-2) "Too big height"
    (List.forall_mem_cons.mpr ⟨⟨by decide, by decide⟩, List.forall_mem_cons.mpr
      ⟨trivial, List.forall_mem_nil _⟩⟩) (by decide)

theorem decode_lastHeader (body : List UInt8) :
    Command.lastHeader.decode body = result Command.lastHeader.answer.ofJson? body := rfl

/-- A refusal in a body is told with its code and message if everything else in the body can be
read. If not, all that is told is that the body could not be read. -/
theorem result_of_refused {α : Type} (read : Nat → Tree → Option α) (b : Refused) :
    (b.Legible read → result read b.bytes = .error (.application b.code b.message)) ∧
    (¬ b.Legible read → result read b.bytes =
      .error (.serialization "Invalid response: the reply does not have the expected form")) := by
  rw [result, Reply.ofJsonBytes?, b.parsed, Option.bind_some]
  constructor
  · intro legible
    obtain ⟨reply, hreply⟩ := Option.isSome_iff_exists.mp legible.isSome_ofJson?
    rw [hreply]
    simp only [Reply.content, (b.of_ofJson? hreply).2]
  · intro illegible
    cases hreply : Reply.ofJson? read Json.nestingLimit (.object b.members) with
    | none => rfl
    | some reply => exact absurd (b.of_ofJson? hreply).1 illegible

/-- Where a request for the last header is refused with a null for a result, the refusal is told. -/
theorem result_of_refused_unanswered :
    Refused.unanswered.Legible Command.lastHeader.answer.ofJson? ∧
      Command.lastHeader.decode Refused.unanswered.bytes =
        .error (.application (-2) "Too big height") := by
  have integer : (Json.Numeral.ofInt 1).toValue?.isSome = true := by decide
  have legible : Refused.unanswered.Legible Command.lastHeader.answer.ofJson? := by
    refine ⟨?_, ?_, by decide, ?_, ?_, ?_⟩
    all_goals simp [Refused.unanswered, Refused.before, Readable, Json.memberTrees, Value.tree,
      Tree.toValue?, integer]
  refine ⟨legible, ?_⟩
  rw [decode_lastHeader]
  exact (result_of_refused Command.lastHeader.answer.ofJson? .unanswered).1 legible

/-- A refusal with an empty object for a result. -/
def Refused.answered : Refused :=
  .before [("result", .object [])] (-2) "Too big height"
    (List.forall_mem_cons.mpr ⟨List.forall_mem_nil _, List.forall_mem_nil _⟩) (by decide)

/-- Where it is refused with an empty object for a result, nothing is told of the refusal. -/
theorem not_application_answered :
    Command.lastHeader.decode Refused.answered.bytes ≠
      .error (.application Refused.answered.code Refused.answered.message) ∧
    Command.lastHeader.decode Refused.answered.bytes =
      .error (.serialization "Invalid response: the reply does not have the expected form") := by
  have unread : Command.lastHeader.decode Refused.answered.bytes =
      .error (.serialization "Invalid response: the reply does not have the expected form") := by
    rw [decode_lastHeader, result, Reply.ofJsonBytes?, Refused.answered.parsed, Option.bind_some]
    cases whole : Reply.ofJson? Command.lastHeader.answer.ofJson? Json.nestingLimit
      (.object Refused.answered.members) with
    | none => rfl
    | some reply =>
      have given : (some "result", Tree.object []) ∈ Refused.answered.members :=
        List.mem_cons_of_mem _ (List.mem_cons_self ..)
      obtain null | read := (Refused.answered.of_ofJson? whole).1.result _ given
      · cases null
      · cases read
  refine ⟨fun told => ?_, unread⟩
  rw [unread] at told
  cases told

end Exchange.Envelope

end RemoteNode
