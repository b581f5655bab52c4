import RemoteNode.Text.Hex
import RemoteNode.Text.Utf8

/-!
Percent-encoding. Each part of a URL has a set of bytes that may not stand for themselves in it;
control bytes and bytes outside ASCII belong to every set.
-/

namespace RemoteNode.Url.Percent

/-- A set of bytes to be encoded. -/
abbrev ByteSet := UInt8 → Bool

/-- Control bytes and bytes outside ASCII. -/
def controls : ByteSet := fun b => b < 0x20 || 0x7F ≤ b

/-- Adds characters to a set. -/
def ByteSet.adding (set : ByteSet) (chars : List Char) : ByteSet :=
  fun b => set b || chars.contains (Char.ofNat b.toNat)

def fragment : ByteSet := controls.adding [' ', '"', '<', '>', '\x60']

def query : ByteSet := controls.adding [' ', '"', '#', '<', '>']

/-- What is encoded in a query of a special scheme. -/
def specialQuery : ByteSet := query.adding ['\x27']

def path : ByteSet := fragment.adding ['#', '?', '\x7b', '\x7d']

/-- What is encoded in a user name or password. -/
def userInfo : ByteSet := path.adding ['/', ':', ';', '=', '@', '[', '\\', ']', '^', '|']

def digit (n : Nat) : Char := if n < 10 then Char.ofNat (48 + n) else Char.ofNat (55 + n)

/-- One byte: as itself, or as a percent sign and two digits. -/
def encodeByte (set : ByteSet) (b : UInt8) : List Char :=
  if set b then ['%', digit (b.toNat / 16), digit (b.toNat % 16)] else [Char.ofNat b.toNat]

def encode (set : ByteSet) (cs : List Char) : List Char :=
  (Text.Utf8.encode cs).flatMap (encodeByte set)

/-- Undoes the encoding; a percent sign without two digits stands for itself. -/
def decode : List UInt8 → List UInt8
  | [] => []
  | 0x25 :: h :: l :: rest =>
    match Text.Hex.value? (Char.ofNat h.toNat), Text.Hex.value? (Char.ofNat l.toNat) with
    | some high, some low => UInt8.ofNat (16 * high + low) :: decode rest
    | _, _ => 0x25 :: decode (h :: l :: rest)
  | b :: rest => b :: decode rest

end RemoteNode.Url.Percent
