/-!
Natural numbers as decimal digits, with leading zeros where a width asks for them.
-/

namespace RemoteNode.Text.Decimal

def digits (n : Nat) : List Char := Nat.toDigits 10 n

/-- The digits with leading zeros up to `width`. -/
def padded (width n : Nat) : List Char :=
  let ds := digits n
  List.replicate (width - ds.length) '0' ++ ds

def value? (c : Char) : Option Nat :=
  if 48 ≤ c.toNat ∧ c.toNat ≤ 57 then some (c.toNat - 48) else none

/-- Reads digits onto a value; any other character is refused. -/
def onto? : Nat → List Char → Option Nat
  | n, [] => some n
  | n, c :: cs => (value? c).bind fun d => onto? (10 * n + d) cs

/-- Reads one or more digits, with any number of leading zeros. -/
def natural? : List Char → Option Nat
  | [] => none
  | cs => onto? 0 cs

example : padded 2 7 = ['0', '7'] := by decide
example : natural? ['0', '8', '0'] = some 80 := by decide
example : natural? [] = none := rfl

end RemoteNode.Text.Decimal
