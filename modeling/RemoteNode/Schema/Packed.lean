import RemoteNode.Schema.Basic
import RemoteNode.Text.Utf8

/-!
Values of a schema as packed bytes: words with the low byte first, a flag as one byte, a list or
text after its length as a 64-bit word, a record as its members without gaps. The case of a
variant is written as a text before its members; it cannot be read back, since the format does not
describe itself. What follows a value is left over.
-/

namespace RemoteNode

namespace Packed

/-- The low `width` bytes of a number, the lowest first. -/
def word : Nat → Nat → List UInt8
  | 0, _ => []
  | width + 1, n => UInt8.ofNat n :: word width (n / 256)

def word? : Nat → List UInt8 → Option (Nat × List UInt8)
  | 0, bytes => some (0, bytes)
  | _ + 1, [] => none
  | width + 1, b :: bytes => (word? width bytes).map fun (n, rest) => (b.toNat + 256 * n, rest)

def take? (n : Nat) (bytes : List UInt8) : Option (List UInt8 × List UInt8) :=
  if n ≤ bytes.length then some (bytes.splitAt n) else none

def many? {α : Type} (item : List UInt8 → Option (α × List UInt8)) :
    Nat → List UInt8 → Option (List α × List UInt8)
  | 0, bytes => some ([], bytes)
  | n + 1, bytes =>
    match item bytes with
    | some (v, rest) => (many? item n rest).map fun (vs, rest) => (v :: vs, rest)
    | none => none

/-- A length before what it counts. -/
def length (n : Nat) : List UInt8 := word 8 n

def text (s : String) : List UInt8 :=
  let bytes := Text.Utf8.bytes s
  length bytes.length ++ bytes

/-- Reads a text, whose bytes have to be well-formed. -/
def text? (bytes : List UInt8) : Option (String × List UInt8) := do
  let (n, rest) ← word? 8 bytes
  let (content, rest) ← take? n rest
  let s ← Text.Utf8.text? content
  pure (s, rest)

/-- A number that fits its width is read back, whatever follows. -/
theorem word?_word {width n : Nat} (h : n < Nat.pow 256 width) (rest : List UInt8) :
    word? width (word width n ++ rest) = some (n, rest) := by
  induction width generalizing n with
  | zero =>
    simp only [Nat.pow_eq, Nat.pow_zero] at h
    simp only [word, word?, List.nil_append, Option.some.injEq, Prod.mk.injEq, and_true]
    omega
  | succ width ih =>
    have : n / 256 < Nat.pow 256 width := by
      simp only [Nat.pow_eq, Nat.pow_succ] at h ⊢
      exact Nat.div_lt_of_lt_mul (by omega)
    simp only [word, List.cons_append, word?, ih this, Option.map_some, UInt8.toNat_ofNat']
    simp only [Option.some.injEq, Prod.mk.injEq, and_true]
    omega

end Packed

open Packed

mutual

/-- The packed form of a value. -/
def Schema.pack {α : Type} : Schema α → α → List UInt8
  | .byte, n => [n]
  | .word16, n => word 2 n.toNat
  | .word32, n => word 4 n.toNat
  | .word64, n => word 8 n.toNat
  | .integer64, n => word 8 n.toUInt64.toNat
  | .flag, b => [if b then 1 else 0]
  | .double, d => word 8 d.bits.toNat
  | .text, s => Packed.text s
  | .bytes32, id => id.toList
  | .list item, vs => Packed.length vs.length ++ vs.flatMap item.pack
  | .record members view, v => members.pack (view.parts v)
  | .variant _ cases view, v => cases.pack (view.parts v)

def Members.pack {β : Type} : Members β → β → List UInt8
  | .nil, _ => []
  | .cons _ schema _ rest, (v, vs) => schema.pack v ++ rest.pack vs

def Cases.pack {β : Type} : Cases β → β → List UInt8
  | .nil, v => nomatch v
  | .cons name members _, .inl v => Packed.text name ++ members.pack v
  | .cons _ _ rest, .inr v => rest.pack v

end

mutual

/-- Reads the packed form and returns what follows it. -/
def Schema.unpack? {α : Type} : Schema α → List UInt8 → Option (α × List UInt8)
  | .byte, bytes => (word? 1 bytes).map fun (n, rest) => (UInt8.ofNat n, rest)
  | .word16, bytes => (word? 2 bytes).map fun (n, rest) => (UInt16.ofNat n, rest)
  | .word32, bytes => (word? 4 bytes).map fun (n, rest) => (UInt32.ofNat n, rest)
  | .word64, bytes => (word? 8 bytes).map fun (n, rest) => (UInt64.ofNat n, rest)
  | .integer64, bytes => (word? 8 bytes).map fun (n, rest) => ((UInt64.ofNat n).toInt64, rest)
  | .flag, bytes =>
    match bytes with
    | b :: rest => if b = 0 then some (false, rest) else if b = 1 then some (true, rest) else none
    | [] => none
  | .double, bytes => (word? 8 bytes).map fun (n, rest) => (⟨UInt64.ofNat n⟩, rest)
  | .text, bytes => Packed.text? bytes
  | .bytes32, bytes =>
    (take? 32 bytes).bind fun (id, rest) => (Bytes32.ofList? id).map (·, rest)
  | .list item, bytes => (word? 8 bytes).bind fun (n, rest) => many? item.unpack? n rest
  | .record members view, bytes => (members.unpack? bytes).map fun (v, rest) => (view.make v, rest)
  | .variant _ _ _, _ => none

def Members.unpack? {β : Type} : Members β → List UInt8 → Option (β × List UInt8)
  | .nil, bytes => some ((), bytes)
  | .cons _ schema _ rest, bytes =>
    match schema.unpack? bytes with
    | some (v, bytes) => (rest.unpack? bytes).map fun (vs, bytes) => ((v, vs), bytes)
    | none => none

end

/-- Reads a value from bytes that may go on after it. -/
def Schema.ofPacked? {α : Type} (schema : Schema α) (bytes : List UInt8) : Option α :=
  (schema.unpack? bytes).map (·.1)

end RemoteNode
