import RemoteNode.Text.Hex

/-!
Identifiers of thirty-two bytes: block and transaction hashes, payment ids, public keys and key
images. In text an identifier is its sixty-four hexadecimal digits; one leading `0x` is allowed when
it is read. Main statement: reading the written form gives the identifier back.
-/

namespace RemoteNode

/-- Exactly thirty-two bytes. -/
structure Bytes32 where
  toList : List UInt8
  length_eq : toList.length = 32
  deriving DecidableEq

/-- The digest of a block or transaction, also used for payment ids. -/
abbrev Hash := Bytes32

/-- A point of the curve: an output key or a key image. -/
abbrev PublicKey := Bytes32

/-- Why a text or a run of bytes is no identifier. -/
inductive Bytes32.Error where
  /-- The text has this many bytes after the `0x`, or stands for bytes of that many digits. -/
  | length (digits : Nat)
  /-- The length is right, but a character is no hexadecimal digit. -/
  | digit
  deriving DecidableEq, Repr

namespace Bytes32

def Error.message : Error → String
  | length n => "invalid length: expected 64 hex characters, got " ++ toString n
  | digit => "invalid hexadecimal string"

/-- Takes bytes if there are thirty-two of them. -/
def ofList? (bytes : List UInt8) : Option Bytes32 :=
  if h : bytes.length = 32 then some ⟨bytes, h⟩ else none

/-- Takes bytes if there are thirty-two of them, and reports the digits they would need if not. -/
def ofList (bytes : List UInt8) : Except Error Bytes32 :=
  match ofList? bytes with
  | some id => .ok id
  | none => .error (.length (2 * bytes.length))

def zero : Bytes32 := ⟨List.replicate 32 0, by simp⟩

instance : Inhabited Bytes32 := ⟨zero⟩

def isZero (id : Bytes32) : Bool := id.toList.all (· == 0)

/-- The sixty-four lower-case digits. -/
def digits (id : Bytes32) : List Char := Text.Hex.encode id.toList

/-- The written form: the digits alone. -/
def text (id : Bytes32) : String := String.ofList id.digits

/-- Removes one leading `0x`. -/
def afterMarker : List Char → List Char
  | '0' :: 'x' :: rest => rest
  | cs => cs

/-- Reads the written form. The length is counted in bytes of UTF-8 and judged first. -/
def ofText (s : String) : Except Error Bytes32 :=
  let cs := afterMarker s.toList
  let n := (String.ofList cs).utf8ByteSize
  if n ≠ 64 then .error (.length n)
  else match (Text.Hex.decode cs).bind ofList? with
    | some id => .ok id
    | none => .error .digit

/-- The bytes compared from the first. -/
def compareBytes : List UInt8 → List UInt8 → Ordering
  | [], [] => .eq
  | [], _ :: _ => .lt
  | _ :: _, [] => .gt
  | a :: as, b :: bs => if a < b then .lt else if b < a then .gt else compareBytes as bs

/-- Identifiers are ordered by their first differing byte. -/
instance : Ord Bytes32 := ⟨fun a b => compareBytes a.toList b.toList⟩

/-- The order used for sorting. -/
def le (a b : Bytes32) : Bool := compare a b != .gt

/-- The form shown in diagnostics: the name of the type around the digits. -/
def debug (name : String) (id : Bytes32) : String := name ++ "(" ++ id.text ++ ")"

@[simp] theorem ofList?_toList (id : Bytes32) : ofList? id.toList = some id := by
  simp [ofList?, id.length_eq]

@[simp] theorem length_digits (id : Bytes32) : id.digits.length = 64 := by
  simp [digits, id.length_eq]

end Bytes32

end RemoteNode
