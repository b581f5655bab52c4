/-!
Bytes as hexadecimal text: two digits a byte, the high half first. Digits are written in lower case
and read in either case.
-/

namespace RemoteNode.Text.Hex

/-- The lower-case digit of a value below sixteen. -/
def digit (n : Nat) : Char :=
  if n < 10 then Char.ofNat (48 + n) else Char.ofNat (87 + n)

/-- The value of an ASCII hexadecimal digit of either case. -/
def value? (c : Char) : Option Nat :=
  if 48 ≤ c.toNat ∧ c.toNat ≤ 57 then some (c.toNat - 48)
  else if 97 ≤ c.toNat ∧ c.toNat ≤ 102 then some (c.toNat - 87)
  else if 65 ≤ c.toNat ∧ c.toNat ≤ 70 then some (c.toNat - 55)
  else none

def ofByte (b : UInt8) : List Char := [digit (b.toNat / 16), digit (b.toNat % 16)]

def encode (bytes : List UInt8) : List Char := bytes.flatMap ofByte

/-- Reads digits in pairs; an odd digit at the end or any other character is refused. -/
def decode : List Char → Option (List UInt8)
  | [] => some []
  | [_] => none
  | high :: low :: rest => do
    let h ← value? high
    let l ← value? low
    let bytes ← decode rest
    pure (UInt8.ofNat (16 * h + l) :: bytes)

def text (bytes : List UInt8) : String := String.ofList (encode bytes)

@[simp] theorem encode_nil : encode [] = [] := rfl

@[simp] theorem encode_cons (b : UInt8) (bytes : List UInt8) :
    encode (b :: bytes) = digit (b.toNat / 16) :: digit (b.toNat % 16) :: encode bytes := rfl

@[simp] theorem length_encode (bytes : List UInt8) : (encode bytes).length = 2 * bytes.length := by
  induction bytes with
  | nil => rfl
  | cons b bytes ih => simp [ih]; omega

/-- A digit is read back as the value it was written for. -/
theorem value?_digit {n : Nat} (h : n < 16) : value? (digit n) = some n := by
  have all : ∀ m ∈ List.range 16, value? (digit m) = some m := by decide
  exact all n (List.mem_range.mpr h)

/-- Reading what was written gives the bytes back. -/
@[simp] theorem decode_encode (bytes : List UInt8) : decode (encode bytes) = some bytes := by
  induction bytes with
  | nil => rfl
  | cons b bytes ih =>
    have hb : b.toNat < 256 := b.toNat_lt
    have high : value? (digit (b.toNat / 16)) = some (b.toNat / 16) := value?_digit (by omega)
    have low : value? (digit (b.toNat % 16)) = some (b.toNat % 16) := value?_digit (by omega)
    have whole : UInt8.ofNat (16 * (b.toNat / 16) + b.toNat % 16) = b := by
      rw [Nat.div_add_mod]; exact UInt8.ofNat_toNat
    rw [encode_cons, decode, high, low, ih]
    simp only [Option.bind_eq_bind, Option.bind_some, whole, Option.pure_def]

end RemoteNode.Text.Hex
