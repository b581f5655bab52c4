import RemoteNode.Proofs.Text.WellFormed
import RemoteNode.Schema.Packed
import Mathlib.Data.List.Basic

/-! The packed form is exact: a value is read from bytes just if they begin with what it is written
as. Everything else that is asked of a code follows from that. -/

namespace RemoteNode

namespace Packed

variable {α β : Type} {read : List UInt8 → Option (α × List UInt8)} {fits : α → Prop}
  {write : α → List UInt8} {width n : Nat} {bytes rest content : List UInt8} {v w : α}

/-- Bytes are read as a value that fits just if they begin with what it is written as; what follows
is left. -/
def Exact (read : List UInt8 → Option (α × List UInt8)) (fits : α → Prop)
    (write : α → List UInt8) : Prop :=
  ∀ bytes v rest, read bytes = some (v, rest) ↔ fits v ∧ bytes = write v ++ rest

namespace Exact

theorem read_append (exact : Exact read fits write) (h : fits v) (rest : List UInt8) :
    read (write v ++ rest) = some (v, rest) := (exact _ _ _).mpr ⟨h, rfl⟩

theorem read_write (exact : Exact read fits write) (h : fits v) :
    read (write v) = some (v, []) := by
  simpa using exact.read_append h []

/-- What is written of one value does not begin with what is written of another. -/
theorem eq_of_isPrefix (exact : Exact read fits write) (hv : fits v) (hw : fits w)
    (h : write v <+: write w) : v = w := by
  obtain ⟨rest, same⟩ := h
  have both := exact.read_append hv rest
  rw [same, exact.read_write hw] at both
  cases both
  rfl

theorem eq_of_write (exact : Exact read fits write) (hv : fits v) (hw : fits w)
    (h : write v = write w) : v = w := exact.eq_of_isPrefix hv hw (h ▸ List.prefix_rfl)

/-- Nothing is read where the end is cut off. -/
theorem read_cut (exact : Exact read fits write) (hv : fits v) (h : bytes <+: write v)
    (cut : bytes ≠ write v) : read bytes = none := by
  cases hr : read bytes with
  | none => rfl
  | some found =>
    obtain ⟨w, rest⟩ := found
    obtain ⟨hw, rfl⟩ := (exact _ _ _).mp hr
    obtain rfl : w = v := exact.eq_of_isPrefix hw hv ((List.prefix_append _ _).trans h)
    obtain ⟨more, whole⟩ := h
    rw [List.append_assoc, List.append_right_eq_self, List.append_eq_nil_iff] at whole
    exact absurd (by rw [whole.1, List.append_nil]) cut

/-- A type all of whose values stand for something readable is read through what they stand for. -/
theorem map (exact : Exact read fits write) (make : α → β) (parts : β → α) {fits' : β → Prop}
    (make_parts : ∀ b, make (parts b) = b) (parts_make : ∀ a, fits a → parts (make a) = a)
    (same : ∀ b, fits' b ↔ fits (parts b)) :
    Exact (fun bytes => (read bytes).map fun (a, rest) => (make a, rest)) fits'
      fun b => write (parts b) := by
  intro bytes b rest
  rw [Option.map_eq_some_iff, same]
  constructor
  · rintro ⟨⟨a, rest⟩, found, h⟩
    cases h
    obtain ⟨fitting, rfl⟩ := (exact _ _ _).mp found
    exact ⟨by rwa [parts_make a fitting], by simp only [parts_make a fitting]⟩
  · rintro ⟨fitting, rfl⟩
    exact ⟨(parts b, rest), exact.read_append fitting rest, by simp only [make_parts]⟩

theorem pair (exact : Exact read fits write) {read' : List UInt8 → Option (β × List UInt8)}
    {fits' : β → Prop} {write' : β → List UInt8} (exact' : Exact read' fits' write') :
    Exact (fun bytes => match read bytes with
        | some (v, bytes) => (read' bytes).map fun (vs, bytes) => ((v, vs), bytes)
        | none => none)
      (fun p => fits p.1 ∧ fits' p.2) fun p => write p.1 ++ write' p.2 := by
  rintro bytes ⟨v, vs⟩ rest
  simp only [List.append_assoc]
  constructor
  · intro h
    split at h
    · rename_i v later found
      obtain ⟨⟨vs, _⟩, others, same⟩ := Option.map_eq_some_iff.mp h
      cases same
      obtain ⟨fitting, rfl⟩ := (exact _ _ _).mp found
      obtain ⟨fitting', rfl⟩ := (exact' _ _ _).mp others
      exact ⟨⟨fitting, fitting'⟩, rfl⟩
    · cases h
  · rintro ⟨⟨fitting, fitting'⟩, rfl⟩
    rw [exact.read_append fitting]
    simp only
    rw [exact'.read_append fitting', Option.map_some]

end Exact

theorem word?_exact (width : Nat) : Exact (word? width) (· < Nat.pow 256 width) (word width) := by
  intro bytes n rest
  refine ⟨?_, fun ⟨fitting, h⟩ => h ▸ word?_word fitting rest⟩
  induction width generalizing bytes n rest with
  | zero =>
    intro h
    cases h
    exact ⟨by decide, rfl⟩
  | succ width ih =>
    intro h
    cases bytes with
    | nil => cases h
    | cons b bytes =>
      obtain ⟨⟨high, _⟩, found, same⟩ := Option.map_eq_some_iff.mp h
      cases same
      obtain ⟨fitting, rfl⟩ := ih _ _ _ found
      have := b.toNat_lt
      constructor
      · simp only [Nat.pow_eq, Nat.pow_succ] at fitting ⊢
        omega
      · have low : UInt8.ofNat (b.toNat + 256 * high) = b := by
          rw [← UInt8.toNat_inj, UInt8.toNat_ofNat']
          omega
        have quotient : (b.toNat + 256 * high) / 256 = high := by omega
        rw [word, low, quotient, List.cons_append]

/-- A type of words is read through the numbers that fit its width. -/
theorem words_exact (width : Nat) (make : Nat → α) (number : α → Nat)
    (make_number : ∀ v, make (number v) = v) (number_lt : ∀ v, number v < Nat.pow 256 width)
    (number_make : ∀ n, n < Nat.pow 256 width → number (make n) = n) :
    Exact (fun bytes => (word? width bytes).map fun (n, rest) => (make n, rest)) (fun _ => True)
      fun v => word width (number v) :=
  (word?_exact width).map make number make_number number_make fun v =>
    ⟨fun _ => number_lt v, fun _ => trivial⟩

/-- A length is read if it is a 64-bit word. -/
theorem length_exact : Exact (word? 8) (· < UInt64.size) length := word?_exact 8

theorem take?_eq_some_iff :
    take? n bytes = some (content, rest) ↔ content.length = n ∧ bytes = content ++ rest := by
  unfold take?
  split
  · rename_i enough
    rw [List.splitAt_eq, Option.some.injEq, Prod.mk.injEq]
    constructor
    · rintro ⟨rfl, rfl⟩
      exact ⟨List.length_take_of_le enough, (List.take_append_drop n bytes).symm⟩
    · rintro ⟨rfl, rfl⟩
      exact ⟨List.take_left, List.drop_left⟩
  · rename_i short
    simp only [reduceCtorEq, false_iff, not_and]
    rintro rfl rfl
    simp at short

theorem text?_exact :
    Exact text? (fun s => (Text.Utf8.bytes s).length < UInt64.size) Packed.text := by
  intro bytes s rest
  simp only [text?, Option.bind_eq_bind, Option.bind_eq_some_iff, Option.pure_def, Prod.exists,
    Option.some.injEq, Prod.mk.injEq, length_exact _ _ _, take?_eq_some_iff,
    Text.Utf8.text?_eq_some_iff]
  constructor
  · rintro ⟨_, _, ⟨fitting, rfl⟩, _, _, ⟨rfl, rfl⟩, _, rfl, rfl, rfl⟩
    exact ⟨fitting, by simp [Packed.text]⟩
  · rintro ⟨fitting, rfl⟩
    refine ⟨_, _, ⟨fitting, ?_⟩, _, _, ⟨rfl, rfl⟩, _, rfl, rfl, rfl⟩
    rw [Packed.text, List.append_assoc]

theorem many?_exact (exact : Exact read fits write) (n : Nat) :
    Exact (many? read n) (fun vs => vs.length = n ∧ ∀ v ∈ vs, fits v) (·.flatMap write) := by
  induction n with
  | zero =>
    intro bytes vs rest
    simp only [many?, Option.some.injEq, Prod.mk.injEq, List.length_eq_zero_iff]
    constructor
    · rintro ⟨rfl, rfl⟩
      simp
    · rintro ⟨⟨rfl, -⟩, rfl⟩
      simp
  | succ n ih =>
    intro bytes vs rest
    rw [many?]
    constructor
    · intro h
      split at h
      · rename_i v later found
        obtain ⟨⟨vs, _⟩, others, same⟩ := Option.map_eq_some_iff.mp h
        cases same
        obtain ⟨fitting, rfl⟩ := (exact _ _ _).mp found
        obtain ⟨⟨rfl, all⟩, rfl⟩ := (ih _ _ _).mp others
        refine ⟨⟨rfl, List.forall_mem_cons.mpr ⟨fitting, all⟩⟩, ?_⟩
        simp only [List.flatMap_cons, List.append_assoc]
      · cases h
    · rintro ⟨⟨long, all⟩, rfl⟩
      cases vs with
      | nil => cases long
      | cons v vs =>
        obtain ⟨fitting, all⟩ := List.forall_mem_cons.mp all
        have others := ih.read_append ⟨Nat.succ.inj long, all⟩ rest
        simp only [List.flatMap_cons, List.append_assoc, exact.read_append fitting] at others ⊢
        rw [others, Option.map_some]

end Packed

open Packed

/-! ### Schemas -/

mutual

/-- Somewhere in the values there are variants. -/
def Schema.hasVariant {α : Type} : Schema α → Bool
  | .list item => item.hasVariant
  | .record members _ => members.hasVariant
  | .variant .. => true
  | _ => false

/-- Somewhere in the members there are variants. -/
def Members.hasVariant {β : Type} : Members β → Bool
  | .nil => false
  | .cons _ schema _ rest => schema.hasVariant || rest.hasVariant

end

mutual

/-- The lists and texts in a value are short enough for their lengths to be written. -/
def Schema.Fits {α : Type} : Schema α → α → Prop
  | .text, s => (Text.Utf8.bytes s).length < UInt64.size
  | .list item, vs => vs.length < UInt64.size ∧ ∀ v ∈ vs, item.Fits v
  | .record members view, v => members.Fits (view.parts v)
  | .variant _ cases view, v => cases.Fits (view.parts v)
  | _, _ => True

/-- The members of a record fit. -/
def Members.Fits {β : Type} : Members β → β → Prop
  | .nil, _ => True
  | .cons _ schema _ rest, (v, vs) => schema.Fits v ∧ rest.Fits vs

/-- The case of a variant fits. -/
def Cases.Fits {β : Type} : Cases β → β → Prop
  | .nil, v => nomatch v
  | .cons _ members _, .inl v => members.Fits v
  | .cons _ _ rest, .inr v => rest.Fits v

end

theorem Bytes32.ofList?_eq_some_iff {bytes : List UInt8} {id : Bytes32} :
    Bytes32.ofList? bytes = some id ↔ bytes = id.toList := by
  constructor
  · intro h
    obtain ⟨long, same⟩ := Option.dite_none_right_eq_some.mp h
    cases same
    rfl
  · rintro rfl
    exact id.ofList?_toList

theorem flag_exact : Exact Schema.flag.unpack? Schema.flag.Fits Schema.flag.pack := by
  intro bytes b rest
  cases bytes with
  | nil => simp [Schema.unpack?, Schema.pack]
  | cons a bytes =>
    change (if a = 0 then _ else if a = 1 then _ else _) = _ ↔ True ∧ _ = [_] ++ _
    by_cases zero : a = 0
    · cases b <;> simp [zero]
    by_cases one : a = 1
    · cases b <;> simp [one]
    · cases b <;> simp [zero, one]

theorem bytes32_exact : Exact Schema.bytes32.unpack? Schema.bytes32.Fits Schema.bytes32.pack := by
  intro bytes id rest
  change Option.bind _ _ = _ ↔ True ∧ bytes = id.toList ++ rest
  simp only [Option.bind_eq_some_iff, Option.map_eq_some_iff, Prod.exists, Prod.mk.injEq,
    take?_eq_some_iff, true_and]
  constructor
  · rintro ⟨content, _, ⟨long, rfl⟩, _, found, rfl, rfl⟩
    rw [Bytes32.ofList?_eq_some_iff.mp found]
  · rintro rfl
    exact ⟨_, _, ⟨id.length_eq, rfl⟩, id, id.ofList?_toList, rfl, rfl⟩

theorem list_exact {α : Type} {item : Schema α} (exact : Exact item.unpack? item.Fits item.pack) :
    Exact (Schema.list item).unpack? (Schema.list item).Fits (Schema.list item).pack := by
  intro bytes vs rest
  change Option.bind _ _ = _ ↔ (_ ∧ _) ∧ bytes = Packed.length _ ++ _ ++ rest
  simp only [Option.bind_eq_some_iff, Prod.exists, length_exact _ _ _, many?_exact exact _ _ _ _]
  constructor
  · rintro ⟨_, _, ⟨fitting, rfl⟩, ⟨rfl, all⟩, rfl⟩
    exact ⟨⟨fitting, all⟩, (List.append_assoc ..).symm⟩
  · rintro ⟨⟨fitting, all⟩, rfl⟩
    exact ⟨_, _, ⟨fitting, List.append_assoc ..⟩, ⟨rfl, all⟩, rfl⟩

mutual

/-- Values without variants are packed exactly. -/
theorem Schema.exact {α : Type} (schema : Schema α) (h : schema.hasVariant = false) :
    Exact schema.unpack? schema.Fits schema.pack := by
  cases schema with
  | byte =>
    have words := words_exact 1 UInt8.ofNat UInt8.toNat (fun _ => UInt8.ofNat_toNat)
      UInt8.toNat_lt fun n h => UInt8.toNat_ofNat_of_lt' h
    simp only [word, UInt8.ofNat_toNat] at words
    exact words
  | word16 =>
    exact words_exact 2 UInt16.ofNat UInt16.toNat (fun _ => UInt16.ofNat_toNat) UInt16.toNat_lt
      fun n h => UInt16.toNat_ofNat_of_lt' h
  | word32 =>
    exact words_exact 4 UInt32.ofNat UInt32.toNat (fun _ => UInt32.ofNat_toNat) UInt32.toNat_lt
      fun n h => UInt32.toNat_ofNat_of_lt' h
  | word64 =>
    exact words_exact 8 UInt64.ofNat UInt64.toNat (fun _ => UInt64.ofNat_toNat) UInt64.toNat_lt
      fun n h => UInt64.toNat_ofNat_of_lt' h
  | integer64 =>
    exact words_exact 8 (fun n => (UInt64.ofNat n).toInt64) (fun v => v.toUInt64.toNat)
      (fun _ => by simp) (fun v => v.toUInt64.toNat_lt)
      fun n h => UInt64.toNat_ofNat_of_lt' h
  | flag => exact flag_exact
  | double =>
    exact words_exact 8 (fun n => Double.mk (UInt64.ofNat n)) (fun d => d.bits.toNat)
      (fun _ => by simp) (fun d => d.bits.toNat_lt)
      fun n h => UInt64.toNat_ofNat_of_lt' h
  | text => exact text?_exact
  | bytes32 => exact bytes32_exact
  | list item =>
    exact list_exact (item.exact h)
  | record members view =>
    exact (members.exact h).map view.make view.parts view.make_parts
      (fun _ _ => view.parts_make _) fun _ => Iff.rfl
  | variant => cases h

theorem Members.exact {β : Type} (members : Members β) (h : members.hasVariant = false) :
    Exact members.unpack? members.Fits members.pack := by
  cases members with
  | nil =>
    intro bytes v rest
    change some _ = _ ↔ True ∧ _ = [] ++ _
    simp
  | cons name schema missing rest =>
    obtain ⟨first, others⟩ := Bool.or_eq_false_iff.mp h
    exact (schema.exact first).pair (rest.exact others)

end

mutual

/-- A value with a place for an identifier, as what it is when the place is filled. -/
inductive Schema.Place : {α : Type} → Schema α → (Bytes32 → α) → Prop
  | here : Schema.Place .bytes32 fun id => id
  | item {α : Type} {schema : Schema α} {filled : Bytes32 → α} (before after : List α)
    (place : Schema.Place schema filled) :
    Schema.Place (.list schema) fun id => before ++ filled id :: after
  | member {α β : Type} {members : Members β} {filled : Bytes32 → β} (view : View α β)
    (place : Members.Place members filled) :
    Schema.Place (.record members view) fun id => view.make (filled id)

/-- A place in one of the members. -/
inductive Members.Place : {β : Type} → Members β → (Bytes32 → β) → Prop
  | first {α β : Type} {name : String} {schema : Schema α} {missing : Option α} {rest : Members β}
    {filled : Bytes32 → α} (vs : β) (place : Schema.Place schema filled) :
    Members.Place (.cons name schema missing rest) fun id => (filled id, vs)
  | later {α β : Type} {name : String} {schema : Schema α} {missing : Option α} {rest : Members β}
    {filled : Bytes32 → β} (v : α) (place : Members.Place rest filled) :
    Members.Place (.cons name schema missing rest) fun id => (v, filled id)

end

mutual

/-- An identifier is packed as its bytes; all bytes around it stay whatever it is. -/
theorem Schema.Place.pack {α : Type} {schema : Schema α} {filled : Bytes32 → α}
    (place : schema.Place filled) :
    ∃ front back, ∀ id, schema.pack (filled id) = front ++ id.toList ++ back := by
  cases place with
  | here => exact ⟨[], [], fun id => (List.append_nil _).symm⟩
  | @item _ item filled before after place =>
    obtain ⟨front, back, packed⟩ := place.pack
    refine ⟨Packed.length (before.length + (after.length + 1)) ++ before.flatMap item.pack ++ front,
      back ++ after.flatMap item.pack, fun id => ?_⟩
    simp [Schema.pack, packed]
  | member view place =>
    obtain ⟨front, back, packed⟩ := place.pack
    refine ⟨front, back, fun id => ?_⟩
    rw [Schema.pack, view.parts_make, packed]

theorem Members.Place.pack {β : Type} {members : Members β} {filled : Bytes32 → β}
    (place : members.Place filled) :
    ∃ front back, ∀ id, members.pack (filled id) = front ++ id.toList ++ back := by
  cases place with
  | @first _ _ _ schema _ rest filled vs place =>
    obtain ⟨front, back, packed⟩ := place.pack
    refine ⟨front, back ++ rest.pack vs, fun id => ?_⟩
    rw [Members.pack, packed, List.append_assoc]
  | @later _ _ _ schema _ rest filled v place =>
    obtain ⟨front, back, packed⟩ := place.pack
    refine ⟨schema.pack v ++ front, back, fun id => ?_⟩
    simp only [Members.pack, packed, List.append_assoc]

end

/-- What makes a packed form exact. -/
structure Schema.PacksExactly {α : Type} (schema : Schema α) : Prop where
  /-- A value is read just from the bytes that begin with its packed form. -/
  reads : ∀ bytes v, schema.ofPacked? bytes = some v ↔
    schema.Fits v ∧ ∃ rest, bytes = schema.pack v ++ rest
  undone : ∀ v, schema.Fits v → schema.ofPacked? (schema.pack v) = some v
  injective : ∀ v w, schema.Fits v → schema.Fits w → schema.pack v = schema.pack w → v = w
  prefixFree : ∀ v w, schema.Fits v → schema.Fits w → schema.pack v <+: schema.pack w → v = w
  /-- Nothing is read where the end is cut off. -/
  cut : ∀ v bytes, schema.Fits v → bytes <+: schema.pack v → bytes ≠ schema.pack v →
    schema.ofPacked? bytes = none
  /-- Wherever an identifier stands, it takes its own bytes and no others depend on it. -/
  raw : ∀ filled, schema.Place filled →
    ∃ front back, ∀ id, schema.pack (filled id) = front ++ id.toList ++ back

theorem Schema.packsExactly {α : Type} (schema : Schema α) (h : schema.hasVariant = false) :
    schema.PacksExactly := by
  have exact := schema.exact h
  have reads (bytes : List UInt8) (v : α) : schema.ofPacked? bytes = some v ↔
      schema.Fits v ∧ ∃ rest, bytes = schema.pack v ++ rest := by
    simp only [ofPacked?, Option.map_eq_some_iff, Prod.exists, exact _ _ _]
    constructor
    · rintro ⟨v, rest, ⟨fitting, rfl⟩, rfl⟩
      exact ⟨fitting, rest, rfl⟩
    · rintro ⟨fitting, rest, rfl⟩
      exact ⟨v, rest, ⟨fitting, rfl⟩, rfl⟩
  exact {
    reads := reads
    undone := fun v hv => (reads _ v).mpr ⟨hv, [], (List.append_nil _).symm⟩
    injective := fun v w => exact.eq_of_write
    prefixFree := fun v w => exact.eq_of_isPrefix
    cut := fun v bytes hv h cut => by rw [ofPacked?, exact.read_cut hv h cut, Option.map_none]
    raw := fun filled place => place.pack }

end RemoteNode
