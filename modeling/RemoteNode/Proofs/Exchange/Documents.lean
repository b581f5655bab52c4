import RemoteNode.Exchange.Body
import RemoteNode.Proofs.Schema.Forms

/-! The bodies of the commands that speak JSON: every form of a request or of an answer is read as
what it was written for, inside its envelope where the format asks for one. -/

namespace RemoteNode

open Json (Value Tree)

namespace Exchange.Envelope

variable {α : Type} {schema : Schema α} {v : α} {x y : Value} {room : Nat}

/-- An envelope around the parameters of a request, its members in any order. -/
def Request.Around (r : Request Value) (y : Value) : Prop :=
  Value.Lists [("id", .natural r.id.toNat), ("jsonrpc", .text r.version),
    ("method", .text r.method), ("params", r.params)] y

theorem Request.around_toJson (r : Request Value) : r.Around r.toJson := ⟨_, .refl _, rfl⟩

/-- The members of a reply that holds a result: there may be an identifier, a version and a null in
place of a refusal. -/
def Reply.members (id : Option Value) (version : Option String) (nullError : Bool)
    (result : Value) : List (String × Value) :=
  (id.map fun i => ("id", i)).toList ++ (version.map fun v => ("jsonrpc", .text v)).toList ++
    ("result", result) :: if nullError then [("error", .null)] else []

/-- A reply that holds a result, its members in any order. The identifier is any value without
doubles, as deep as a reply may hold it. -/
def Reply.Around (result y : Value) : Prop :=
  ∃ id version nullError, (∀ i ∈ id, Value.Fits (Json.nestingLimit - 1) i) ∧
    Value.Lists (Reply.members id version nullError result) y

/-- A request in its envelope is read with its parameters. -/
theorem Request.Around.read {r : Request Value} (around : r.Around y)
    (form : schema.Form v r.params) (plain : schema.isPlain (Json.nestingLimit - 1)) :
    (Tree.parse y.toBytes).bind (Request.ofJson? schema.ofJson? Json.nestingLimit) =
      some ⟨r.id, r.version, r.method, v⟩ := by
  have fits : y.Fits Json.nestingLimit := around.fits <| by
    simp only [List.forall_mem_cons]
    exact ⟨Value.fits_natural r.id.toNat_lt, Value.fits_text _, Value.fits_text _, form.fits plain,
      List.forall_mem_nil _⟩
  obtain ⟨ms, same, rfl⟩ := around
  have slots : Json.slots? ["id", "jsonrpc", "method", "params"] (Value.object ms).tree =
      some [some (Value.natural r.id.toNat).tree, some (Value.text r.version).tree,
        some (Value.text r.method).tree, some r.params.tree] :=
    (Json.slots?_of_perm _ (by simp) same).trans (by simp [List.lookup_cons])
  have id : Schema.word64.ofJson? (Json.nestingLimit - 1) (.number (.ofInt r.id.toNat)) =
      some r.id := Schema.Form.read (x := .natural r.id.toNat) rfl rfl
  rw [Tree.parse_toBytes fits, Option.bind_some, Request.ofJson?, slots]
  simp [id, Value.tree, Tree.text?, form.read plain]

/-- A member that may be missing or null is read if what is given for it is. -/
theorem isSome_optional?_iff {β : Type} {read : Tree → Option β} {slot : Option Tree} :
    (optional? read slot).isSome ↔ ∀ t ∈ slot, t = .null ∨ (read t).isSome := by
  fun_cases optional? read slot with
  | case1 | case2 => simp
  | case3 t other =>
    have other : t ≠ .null := other
    simp [other]

section Members
variable {id : Option Value} {version : Option String} {nullError : Bool} {result : Value}

theorem Reply.nodup_members : ((Reply.members id version nullError result).map Prod.fst).Nodup := by
  cases id <;> cases version <;> cases nullError <;> simp [Reply.members]

theorem Reply.fits_members (small : ∀ i ∈ id, Value.Fits room i) (fits : result.Fits room) :
    ∀ m ∈ Reply.members id version nullError result, m.2.Fits room := by
  intro m there
  simp only [Reply.members, List.mem_append, List.mem_cons, Option.mem_toList,
    Option.map_eq_some_iff] at there
  obtain (⟨i, given, rfl⟩ | ⟨s, -, rfl⟩) | rfl | there := there
  · exact small i given
  · exact Value.fits_text s
  · exact fits
  · cases nullError with
    | false => cases there
    | true =>
      obtain rfl := List.mem_singleton.mp there
      cases room <;> exact trivial

/-- What stands in a reply under each name. -/
theorem Reply.lookup_members :
    ["id", "jsonrpc", "result", "error"].map (fun name =>
        ((Reply.members id version nullError result).lookup name).map Value.tree) =
      [id.map Value.tree, version.map fun v => .text (some v), some result.tree,
        if nullError then some .null else none] := by
  cases id <;> cases version <;> cases nullError <;>
    simp [Reply.members, List.lookup_cons, Value.tree]

end Members

/-- The result of a reply is read, whatever else stands in it. -/
theorem Reply.Around.read {result : Value} (around : Reply.Around result y)
    (form : schema.Form v result) (plain : schema.isPlain (Json.nestingLimit - 1))
    (object : ∃ ms, result = .object ms) :
    Envelope.result schema.ofJson? y.toBytes = .ok v := by
  obtain ⟨id, version, nullError, small, lists⟩ := around
  have fits : y.Fits Json.nestingLimit := lists.fits (Reply.fits_members small (form.fits plain))
  obtain ⟨ms, same, rfl⟩ := lists
  have slots := (Json.slots?_of_perm ["id", "jsonrpc", "result", "error"] Reply.nodup_members
    same).trans (congrArg some Reply.lookup_members)
  have anyId : (optional? (Tree.toValue? (Json.nestingLimit - 1)) (id.map Value.tree)).isSome := by
    refine isSome_optional?_iff.mpr fun t there => .inr ?_
    obtain ⟨i, given, rfl⟩ := Option.map_eq_some_iff.mp there
    exact Tree.isSome_toValue? (small i given)
  have anyVersion : (optional? Tree.text? (version.map fun v => .text (some v))).isSome := by
    refine isSome_optional?_iff.mpr fun t there => .inr ?_
    obtain ⟨s, -, rfl⟩ := Option.map_eq_some_iff.mp there
    rfl
  obtain ⟨i, hi⟩ := Option.isSome_iff_exists.mp anyId
  obtain ⟨s, hs⟩ := Option.isSome_iff_exists.mp anyVersion
  have value : optional? (schema.ofJson? (Json.nestingLimit - 1)) (some result.tree) =
      some (some v) := by
    obtain ⟨ms, rfl⟩ := object
    exact congrArg (Option.map some) (form.read plain)
  rw [Envelope.result, Reply.ofJsonBytes?, Tree.parse_toBytes fits, Option.bind_some, Reply.ofJson?,
    slots]
  have refusal : optional? (Refusal.schema.ofJson? (Json.nestingLimit - 1))
      (if nullError then some .null else none) = some none := by
    cases nullError <;> rfl
  simp [hi, hs, value, refusal, Reply.content]

end Exchange.Envelope

namespace Command

open Exchange

variable {c : Command}

/-- A body that holds a request, in any of its forms. -/
def RequestBody (c : Command) (r : c.Request) (y : Value) : Prop :=
  ∃ x, c.request.Form r x ∧
    match c.format with
    | .rpc => ∃ id version, Envelope.Request.Around ⟨id, version, c.endpoint, x⟩ y
    | _ => y = x

/-- The request in a body; one in an envelope has to name the method. -/
def readRequest? (c : Command) (body : List UInt8) : Option c.Request :=
  match c.format with
  | .packed => c.request.ofPacked? body
  | .json => c.request.ofJsonBytes? body
  | .rpc =>
    ((Tree.parse body).bind (Envelope.Request.ofJson? c.request.ofJson? Json.nestingLimit)).bind
      fun r => if r.method = c.endpoint then some r.params else none

/-- A body that holds an answer, in any of its forms. -/
def AnswerBody (c : Command) (a : Answer c.Content) (y : Value) : Prop :=
  ∃ x, c.answer.Form a x ∧
    match c.format with
    | .rpc => Envelope.Reply.Around x y
    | _ => y = x

/-- What is written for a command is read back, in whatever form it comes. -/
structure ReadsForms (c : Command) : Prop where
  /-- A request is written as one of its bodies. -/
  encoded : ∀ r, ∃ y, c.RequestBody r y ∧ c.encode r = y.toBytes
  request : ∀ r y, c.RequestBody r y → c.readRequest? y.toBytes = some r
  /-- The JSON form of an answer is one of its forms. -/
  written : ∀ a, c.answer.Form a (c.answer.toJson a)
  /-- The answers of the three commands left out hold doubles. -/
  answer : c ∉ [.blocksByHeights, .blocksByHashes, .blockByHeight] →
    ∀ a y, c.AnswerBody a y → c.decode y.toBytes = .ok a

/-- No request holds a double. -/
theorem isPlain_request (c : Command) :
    c.request.isPlain Json.nestingLimit ∧ c.request.isPlain (Json.nestingLimit - 1) := by
  cases c <;> exact ⟨rfl, rfl⟩

/-- Only answers that describe blocks hold doubles. -/
theorem isPlain_answer (floatless : c ∉ [blocksByHeights, blocksByHashes, blockByHeight]) :
    c.answer.isPlain Json.nestingLimit ∧ c.answer.isPlain (Json.nestingLimit - 1) := by
  cases c with
  | blocksByHeights | blocksByHashes | blockByHeight => exact absurd (by simp) floatless
  | _ => exact ⟨rfl, rfl⟩

/-- Every answer is an object. -/
theorem exists_object_of_form {a : Answer c.Content} {x : Value} (form : c.answer.Form a x) :
    ∃ ms, x = .object ms := by
  cases c <;> obtain ⟨-, -, ms, -, rfl⟩ := form <;> exact ⟨ms, rfl⟩

theorem exists_requestBody (r : c.Request) (unpacked : c.format ≠ .packed) :
    ∃ y, c.RequestBody r y ∧ c.encode r = y.toBytes := by
  have form := c.request.form_toJson r
  rw [encode]
  cases format : c.format with
  | packed => exact absurd format unpacked
  | json => exact ⟨_, ⟨_, form, by rw [format]⟩, rfl⟩
  | rpc =>
    refine ⟨_, ⟨_, form, ?_⟩, rfl⟩
    rw [format]
    exact ⟨_, _, Envelope.Request.around_toJson _⟩

theorem RequestBody.read {r : c.Request} {y : Value} (body : c.RequestBody r y)
    (unpacked : c.format ≠ .packed) : c.readRequest? y.toBytes = some r := by
  obtain ⟨plain, plainInside⟩ := c.isPlain_request
  obtain ⟨x, form, body⟩ := body
  rw [readRequest?]
  cases format : c.format with
  | packed => exact absurd format unpacked
  | json =>
    rw [format] at body
    obtain rfl := body
    exact form.ofJsonBytes? plain
  | rpc =>
    rw [format] at body
    obtain ⟨id, version, around⟩ := body
    simp only
    rw [around.read form plainInside, Option.bind_some, if_pos rfl]

theorem AnswerBody.read {a : Answer c.Content} {y : Value} (body : c.AnswerBody a y)
    (unpacked : c.format ≠ .packed)
    (floatless : c ∉ [blocksByHeights, blocksByHashes, blockByHeight]) :
    c.decode y.toBytes = .ok a := by
  obtain ⟨plain, plainInside⟩ := isPlain_answer floatless
  obtain ⟨x, form, body⟩ := body
  rw [decode]
  cases format : c.format with
  | packed => exact absurd format unpacked
  | json =>
    rw [format] at body
    obtain rfl := body
    simp only
    rw [form.ofJsonBytes? plain]
  | rpc =>
    rw [format] at body
    exact body.read form plainInside (exists_object_of_form form)

/-- All commands that speak JSON read their bodies in every form. -/
theorem bodies_read (c : Command) (unpacked : c.format ≠ .packed) : c.ReadsForms where
  encoded r := exists_requestBody r unpacked
  request _ _ body := body.read unpacked
  written := c.answer.form_toJson
  answer floatless _ _ body := body.read unpacked floatless

/-- A transaction of which only the hash and an input are given; every object of the answer stands
in reverse, the input with its tag at the end. -/
theorem bodies_read_transactions : transactionsByHashes.format ≠ .packed ∧
    transactionsByHashes.decode (Value.object
      [("transactions", .array [.object
        [("inputs", .array [.object [("mixin", .natural 3), ("key_image", .text Bytes32.zero.text),
          ("amount", .natural 18446744073709551615), ("type", .text "key")]]),
        ("hash", .text Bytes32.zero.text)]]),
      ("status", .text "\"\x01é")]).toBytes =
      .ok ⟨"\"\x01é", [⟨.zero, 0, 0, 0, 0, 0, 0, 0, .zero, false, false, .zero, 0,
        [.key 18446744073709551615 .zero 3], []⟩]⟩ := by
  have input : Chain.Input.schema.Form (.key 18446744073709551615 .zero 3) (Value.object
      [("mixin", .natural 3), ("key_image", .text Bytes32.zero.text),
        ("amount", .natural 18446744073709551615), ("type", .text "key")]) :=
    ⟨[("type", .text "key"), ("amount", .natural 18446744073709551615),
      ("key_image", .text Bytes32.zero.text), ("mixin", .natural 3)],
      ⟨_, Members.form_toJson _ (18446744073709551615, Bytes32.zero, 3, ()), rfl⟩, _,
      List.reverse_perm _, rfl⟩
  have transaction : Chain.TransactionDetails.schema.Form
      ⟨.zero, 0, 0, 0, 0, 0, 0, 0, .zero, false, false, .zero, 0,
        [.key 18446744073709551615 .zero 3], []⟩
      (Value.object [("inputs", .array [.object [("mixin", .natural 3),
        ("key_image", .text Bytes32.zero.text), ("amount", .natural 18446744073709551615),
        ("type", .text "key")]]), ("hash", .text Bytes32.zero.text)]) := by
    refine ⟨[("hash", _), ("inputs", _)], ?_, _, List.reverse_perm _, rfl⟩
    refine .given ?_ rfl
    iterate 12 refine .omitted ?_
    exact .given (.omitted rfl) ⟨_, .cons input .nil, rfl⟩
  refine ⟨by decide, (bodies_read transactionsByHashes (by decide)).answer (by decide) _ _
    ⟨_, ⟨[("status", _), ("transactions", _)], .given (.given rfl ⟨_, .cons transaction .nil, rfl⟩)
      rfl, _, List.reverse_perm _, rfl⟩, ?_⟩⟩
  exact rfl

end Command

end RemoteNode
