import RemoteNode.Double

/-!
The shortest decimal that reads back as a given double. For each number of digits from one to
seventeen the two neighbours of the value on that decimal grid are tried; the first grid with a
neighbour that rounds back to the value wins, and of two such neighbours the nearer.
-/

namespace RemoteNode.Double

/-- The decimal `digits * 10 ^ (exponent - 400)`. -/
structure Decimal where
  digits : Nat
  exponent : Nat
  deriving DecidableEq, Repr

namespace Decimal

/-- The exponents are kept above zero by this much. -/
def bias : Nat := 400

def ratio (x : Decimal) : Nat × Nat :=
  if bias ≤ x.exponent then (x.digits * Nat.pow 10 (x.exponent - bias), 1)
  else (x.digits, Nat.pow 10 (bias - x.exponent))

/-- Moves zeros at the end of the digits into the exponent. -/
def trim : Nat → Decimal → Decimal
  | 0, x => x
  | fuel + 1, x =>
    if x.digits ≠ 0 ∧ x.digits % 10 = 0 then trim fuel ⟨x.digits / 10, x.exponent + 1⟩ else x

end Decimal

/-- The number of places `p`, biased, with `10 ^ (p - 1) ≤ n / d < 10 ^ p`, for a positive ratio. -/
def places (n d : Nat) : Nat :=
  let scaled := n * Nat.pow 10 Decimal.bias
  (Nat.toDigits 10 (scaled / d)).length

/-- The better of the two neighbours of `n / d` among the multiples of `10 ^ (exponent - bias)`, if
one of them rounds to `bits`. -/
def neighbour? (bits n d exponent : Nat) : Option Decimal :=
  let (num, den) :=
    if Decimal.bias ≤ exponent then (n, d * Nat.pow 10 (exponent - Decimal.bias))
    else (n * Nat.pow 10 (Decimal.bias - exponent), d)
  let low : Decimal := ⟨num / den, exponent⟩
  let high : Decimal := ⟨num / den + 1, exponent⟩
  let readsBack (x : Decimal) : Bool := ofRatio x.ratio.1 x.ratio.2 == bits
  let fromLow := num % den
  let nearer := if 2 * fromLow < den ∨ (2 * fromLow = den ∧ low.digits % 2 = 0) then low else high
  let farther := if nearer = low then high else low
  if readsBack nearer then some nearer else if readsBack farther then some farther else none

/-- The shortest decimal of a positive finite magnitude. -/
def shortest (bits : Nat) : Decimal :=
  let (n, d) := ratio bits
  let p := places n d
  let found := (List.range 17).findSome? fun i => neighbour? bits n d (p - (i + 1))
  match found with
  | some x => x.trim 20
  | none => ⟨n, Decimal.bias⟩

end RemoteNode.Double
