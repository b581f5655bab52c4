import RemoteNode.Text.Cut

/-!
Punycode, the form in which a label of a domain name carries characters outside ASCII. The ASCII
characters of the label stand first; after the last hyphen follow the places and code points of the
others, in ascending order, as numbers of variable length.
-/

namespace RemoteNode.Url.Punycode

/-- The value of a digit: letters stand for 0 to 25, digits for 26 to 35. -/
def digit? (c : Char) : Option Nat :=
  if 'a' ≤ c ∧ c ≤ 'z' then some (c.toNat - 97)
  else if '0' ≤ c ∧ c ≤ '9' then some (c.toNat - 48 + 26)
  else none

/-- The digits below this end a number, where `k` grows by 36 with each digit. -/
def threshold (k bias : Nat) : Nat := max 1 (min 26 (k - bias))

/-- Divides until the rest is small, and adds 36 for each division. -/
def reduce : Nat → Nat → Nat → Nat × Nat
  | 0, delta, k => (delta, k)
  | fuel + 1, delta, k => if 455 < delta then reduce fuel (delta / 35) (k + 36) else (delta, k)

/-- The bias after a number, where `count` characters are known. -/
def adapt (delta count : Nat) (first : Bool) : Nat :=
  let delta := if first then delta / 700 else delta / 2
  let (delta, k) := reduce delta (delta + delta / count) 0
  k + 36 * delta / (delta + 38)

/-- Reads a number and returns the digits after it. -/
def number? (bias k weight value : Nat) : List Char → Option (Nat × List Char)
  | [] => none
  | c :: cs =>
    match digit? c with
    | none => none
    | some d =>
      let t := threshold k bias
      let value := value + d * weight
      if d < t then some (value, cs) else number? bias (k + 36) (weight * (36 - t)) value cs

/-- Puts the code points of numbers in their places, where the last one put was `n`, at `i`. -/
def place? : Nat → Nat → Nat → Nat → Bool → List Nat → List Char → Option (List Nat)
  | _, _, _, _, _, known, [] => some known
  | 0, _, _, _, _, _, _ :: _ => none
  | fuel + 1, n, i, bias, first, known, cs =>
    match number? bias 36 1 0 cs with
    | none => none
    | some (delta, rest) =>
      let count := known.length + 1
      let i := i + delta
      let n := n + i / count
      let i := i % count
      if n.isValidChar then
        place? fuel n (i + 1) (adapt delta count first) false (known.insertIdx i n) rest
      else none

/-- The code points that a text stands for. -/
def decode? (cs : List Char) : Option (List Nat) :=
  match Text.cutLast '-' cs with
  | none => place? cs.length 128 0 72 true [] cs
  | some ([], _) => none
  | some (basic, rest) => place? rest.length 128 0 72 true (basic.map Char.toNat) rest

/-- A code point that no label carries: a control character or the blank after them. -/
def isControl (n : Nat) : Bool := 0x80 ≤ n && n ≤ 0xA0

/-- The text stands for a label with characters outside ASCII. -/
def isLabel (cs : List Char) : Bool :=
  match decode? cs with
  | some points => points.any (0x80 ≤ ·) && !points.any isControl
  | none => false

example : decode? "bcher-kva".toList = some [98, 252, 99, 104, 101, 114] := by decide +kernel
example : isLabel "a".toList = false := by decide +kernel
example : isLabel "".toList = false := by decide +kernel

end RemoteNode.Url.Punycode
