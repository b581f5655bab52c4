/-!
Bytes as Unicode text. `decode` accepts exactly the well-formed sequences: no stray or missing
continuation byte, no overlong form, no surrogate and nothing above U+10FFFF.
-/

namespace RemoteNode.Text.Utf8

def continuation? (b : UInt8) : Option Nat :=
  if 0x80 ≤ b ∧ b ≤ 0xBF then some (b.toNat - 0x80) else none

/-- The character of a code point that is neither too small for its form nor a surrogate. -/
def scalar? (least code : Nat) : Option Char :=
  if h : code.isValidChar then
    if least ≤ code then some ⟨UInt32.ofNatLT code (by
      have := h; simp only [Nat.isValidChar] at this; change code < 4294967296; omega), by
        simpa [UInt32.isValidChar, Nat.isValidChar] using h⟩ else none
  else none

def decode : List UInt8 → Option (List Char)
  | [] => some []
  | a :: rest =>
    if a < 0x80 then do
      let c ← scalar? 0 a.toNat
      let cs ← decode rest
      pure (c :: cs)
    else if a < 0xC0 then none
    else if a < 0xE0 then
      match rest with
      | b :: rest => do
        let x ← continuation? b
        let c ← scalar? 0x80 ((a.toNat - 0xC0) * 64 + x)
        let cs ← decode rest
        pure (c :: cs)
      | _ => none
    else if a < 0xF0 then
      match rest with
      | b :: d :: rest => do
        let x ← continuation? b
        let y ← continuation? d
        let c ← scalar? 0x800 ((a.toNat - 0xE0) * 4096 + x * 64 + y)
        let cs ← decode rest
        pure (c :: cs)
      | _ => none
    else if a < 0xF8 then
      match rest with
      | b :: d :: e :: rest => do
        let x ← continuation? b
        let y ← continuation? d
        let z ← continuation? e
        let c ← scalar? 0x10000 ((a.toNat - 0xF0) * 262144 + x * 4096 + y * 64 + z)
        let cs ← decode rest
        pure (c :: cs)
      | _ => none
    else none

def encode (cs : List Char) : List UInt8 := cs.flatMap String.utf8EncodeChar

def bytes (s : String) : List UInt8 := encode s.toList

/-- The text spelled by well-formed bytes. -/
def text? (bs : List UInt8) : Option String := (decode bs).map String.ofList

@[simp] theorem encode_nil : encode [] = [] := rfl

@[simp] theorem encode_cons (c : Char) (cs : List Char) :
    encode (c :: cs) = String.utf8EncodeChar c ++ encode cs := rfl

@[simp] theorem encode_append (cs ds : List Char) : encode (cs ++ ds) = encode cs ++ encode ds := by
  simp [encode]

end RemoteNode.Text.Utf8
