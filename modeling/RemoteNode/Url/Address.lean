import RemoteNode.Text.Decimal
import RemoteNode.Text.Hex

/-!
Network addresses as hosts. A four-byte address may be written with one to four parts in decimal,
octal or hexadecimal, of which the last fills the bytes that are left; it is shown with four
decimal parts. A sixteen-byte address is written as eight groups in hexadecimal, of which one run
of zeros may be left out and the last two may be a four-byte address; it is shown with the first
longest run of at least two zeros left out.
-/

namespace RemoteNode.Url

/-- Splits at each separator. -/
def splitAt (sep : Char) (cs : List Char) : List (List Char) := cs.splitOn sep

namespace Address

/-- The value of digits of a base up to sixteen. -/
def inBase (base : Nat) : Nat → List Char → Option Nat
  | n, [] => some n
  | n, c :: cs =>
    match Text.Hex.value? c with
    | some d => if d < base then inBase base (base * n + d) cs else none
    | none => none

/-- Reads a part: hexadecimal after `0x`, octal after `0`, else decimal. -/
def part? : List Char → Option Nat
  | [] => none
  | '0' :: 'x' :: cs => inBase 16 0 cs
  | '0' :: 'X' :: cs => inBase 16 0 cs
  | ['0'] => some 0
  | '0' :: cs => inBase 8 0 cs
  | cs => inBase 10 0 cs

/-- The parts, without an empty one at the end. -/
def parts (cs : List Char) : List (List Char) :=
  let ps := splitAt '.' cs
  if ps.getLast? = some [] then ps.dropLast else ps

/-- The text has to be a four-byte address: its last part is a number. -/
def endsInNumber (cs : List Char) : Bool :=
  match (parts cs).getLast? with
  | some last => (!last.isEmpty && last.all Char.isDigit) || (part? last).isSome
  | none => false

def fourBytes? (cs : List Char) : Option Nat :=
  let ps := parts cs
  if 4 < ps.length then none
  else match ps.mapM part? with
    | none => none
    | some ns =>
      match ns.getLast? with
      | none => none
      | some last =>
        let before := ns.dropLast
        if before.all (· < 256) && last < Nat.pow 256 (4 - before.length) then
          some (before.foldl (fun n p => 256 * n + p) 0 * Nat.pow 256 (4 - before.length) + last)
        else none

def showFourBytes (n : Nat) : List Char :=
  List.intercalate ['.']
    ([n / 16777216, n / 65536 % 256, n / 256 % 256, n % 256].map Text.Decimal.digits)

/-- A part of a four-byte address at the end of a longer one: no leading zeros, below 256. -/
def strictPart? (cs : List Char) : Option Nat :=
  match cs, Text.Decimal.natural? cs with
  | '0' :: _ :: _, _ => none
  | _, some n => if n < 256 then some n else none
  | _, none => none

/-- The two groups of a four-byte address at the end of a longer one. -/
def lastTwoGroups? (cs : List Char) : Option (List Nat) :=
  match (splitAt '.' cs).mapM strictPart? with
  | some [a, b, c, d] => some [256 * a + b, 256 * c + d]
  | _ => none

/-- A group of one to four hexadecimal digits. -/
def group? (cs : List Char) : Option Nat :=
  if cs.isEmpty || 4 < cs.length then none else inBase 16 0 cs

/-- Reads groups between colons; where it may, the last stands for two. -/
def groups? (mayEndInFourBytes : Bool) : List (List Char) → Option (List Nat)
  | [] => some []
  | [last] =>
    if mayEndInFourBytes && last.contains '.' then lastTwoGroups? last
    else (group? last).map ([·])
  | g :: rest => do
    let n ← group? g
    let ns ← groups? mayEndInFourBytes rest
    pure (n :: ns)

def splitGap : List Char → Option (List Char × List Char)
  | ':' :: ':' :: rest => some ([], rest)
  | c :: rest => (splitGap rest).map fun (before, after) => (c :: before, after)
  | [] => none

/-- The groups of one side of the gap. -/
def side? (mayEndInFourBytes : Bool) (cs : List Char) : Option (List Nat) :=
  if cs.isEmpty then some [] else groups? mayEndInFourBytes (splitAt ':' cs)

def eightGroups? (cs : List Char) : Option (List Nat) :=
  match splitGap cs with
  | some (before, after) => do
    let left ← side? false before
    let right ← side? true after
    if left.length + right.length ≤ 7 then
      some (left ++ List.replicate (8 - left.length - right.length) 0 ++ right)
    else none
  | none => do
    let gs ← side? true cs
    if gs.length = 8 then some gs else none

/-- The length of the run of zeros at the start. -/
def zeros (gs : List Nat) : Nat := (gs.takeWhile (· == 0)).length

/-- The place and length of the first longest run of zeros. -/
def longestZeros : Nat → List Nat → Nat × Nat
  | _, [] => (0, 0)
  | i, g :: gs =>
    let here := zeros (g :: gs)
    let later := longestZeros (i + 1) gs
    if later.2 ≤ here then (i, here) else later

/-- Groups with colons between them. -/
def showGroups (gs : List Nat) : List Char :=
  List.intercalate [':'] (gs.map (Nat.toDigits 16))

def showEightGroups (gs : List Nat) : List Char :=
  let (place, length) := longestZeros 0 gs
  if length < 2 then showGroups gs
  else showGroups (gs.take place) ++ [':', ':'] ++ showGroups (gs.drop (place + length))

end Address

end RemoteNode.Url
