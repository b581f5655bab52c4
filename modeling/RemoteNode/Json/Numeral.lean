import RemoteNode.Double.Shortest

/-!
Numbers as they are written in JSON. A numeral without fraction and exponent stands for an integer
if a 64-bit word holds it; every other numeral stands for a double.

A double is read in two roundings: the leading digits that fit an unsigned 64-bit word are rounded
to a double, and that is multiplied by, or divided by, the double nearest to the power of ten.
-/

namespace RemoteNode.Json

/-- The parts of a written number; digits are their values. -/
structure Numeral where
  negative : Bool
  whole : List Nat
  /-- The digits after the point, empty if there is no point. -/
  fraction : List Nat
  /-- Whether the exponent is negative, and its digits. -/
  exponent : Option (Bool × List Nat)
  deriving DecidableEq, Repr

namespace Numeral

def value (digits : List Nat) : Nat := digits.foldl (fun n d => 10 * n + d) 0

def isWhole (n : Numeral) : Bool := n.fraction.isEmpty && n.exponent.isNone

/-- The integer the numeral stands for. A negative zero stands for none. -/
def integer? (n : Numeral) : Option Int :=
  if n.isWhole then
    let v := value n.whole
    if n.negative then
      if 0 < v ∧ v ≤ Int64.minValue.toInt.natAbs then some (-(v : Int)) else none
    else if v < UInt64.size then some v else none
  else none

/-- The digits gathered so far, as far as they fit a word. -/
structure Gathered where
  significand : Nat
  /-- Digits left out before the point. -/
  omitted : Nat
  /-- Digits taken after the point. -/
  places : Nat
  /-- A digit did not fit. -/
  full : Bool

/-- The significand with one more digit, if a word holds it. -/
def extend? (significand digit : Nat) : Option Nat :=
  let n := 10 * significand + digit
  if n < UInt64.size then some n else none

/-- Takes a digit before the point. -/
def gatherWhole (g : Gathered) (digit : Nat) : Gathered :=
  if g.full then { g with omitted := g.omitted + 1 }
  else match extend? g.significand digit with
    | some n => { g with significand := n }
    | none => { g with omitted := g.omitted + 1, full := true }

/-- Takes a digit after the point. -/
def gatherFraction (g : Gathered) (digit : Nat) : Gathered :=
  if g.full then g
  else match extend? g.significand digit with
    | some n => { g with significand := n, places := g.places + 1 }
    | none => { g with full := true }

/-- All digits of the numeral. Leading digits that were too many do not keep a later one after the
point from being taken. -/
def gather (n : Numeral) : Gathered :=
  let whole := n.whole.foldl gatherWhole ⟨0, 0, 0, false⟩
  n.fraction.foldl gatherFraction { whole with full := false }

def powerOfTen (n : Nat) : Nat := Double.ofNat (Nat.pow 10 n)

/-- Divides by `10 ^ n`, in steps of `10 ^ 308` and one last smaller step. -/
def scaleDown : Nat → Nat → Nat → Nat
  | 0, bits, _ => bits
  | steps + 1, bits, n =>
    if n ≤ 308 then Double.divide bits (powerOfTen n)
    else if bits = 0 then 0
    else scaleDown steps (Double.divide bits (powerOfTen 308)) (n - 308)

def scaleUp? (bits n : Nat) : Option Nat :=
  if n ≤ 308 then
    let product := Double.multiply bits (powerOfTen n)
    if product < Double.infinityBits then some product else none
  else if bits = 0 then some 0 else none

/-- Exponents above this have the effect of an unlimited one. -/
def exponentLimit : Nat := 0x80000000

/-- The magnitude of the double the numeral stands for; nothing if it is too large. -/
def magnitude? (n : Numeral) : Option Nat :=
  let g := n.gather
  let bits := Double.ofNat g.significand
  match n.exponent with
  | none => scale bits g.omitted g.places
  | some (isNegative, digits) =>
    let e := value digits
    if exponentLimit ≤ e then
      if bits = 0 ∨ isNegative then some 0 else none
    else if isNegative then scale bits g.omitted (g.places + e)
    else scale bits (g.omitted + e) g.places
where
  /-- Multiplies by `10 ^ (up - down)`. -/
  scale (bits up down : Nat) : Option Nat :=
    if down ≤ up then scaleUp? bits (up - down) else some (scaleDown 4 bits (down - up))

/-- The double the numeral stands for; nothing if it is too large. -/
def double? (n : Numeral) : Option Double :=
  n.magnitude?.map (Double.ofMagnitude n.negative)

end Numeral

end RemoteNode.Json
