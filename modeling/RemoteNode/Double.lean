/-!
Double-precision numbers as their sixty-four bits, with exact conversions from and to ratios of
natural numbers. Rounding goes to the nearest double, a tie to the one with an even last bit.
-/

namespace RemoteNode

/-- A double-precision number. -/
structure Double where
  bits : UInt64
  deriving DecidableEq, Repr, Inhabited

namespace Double

/-- Fifty-two bits follow the exponent. -/
def fractionSize : Nat := 0x10000000000000

/-- The bits of positive infinity. -/
def infinityBits : Nat := 2047 * fractionSize

/-- The bits of what is no number, where nothing else is known of it. -/
def quietBits : Nat := infinityBits + fractionSize / 2

def signBit : Nat := 0x8000000000000000

def magnitude (d : Double) : Nat := d.bits.toNat % signBit

def isNegative (d : Double) : Bool := signBit ≤ d.bits.toNat

def isFinite (d : Double) : Bool := d.magnitude < infinityBits

/-- A double of given magnitude bits and sign. -/
def ofMagnitude (negative : Bool) (bits : Nat) : Double :=
  ⟨UInt64.ofNat (if negative then signBit + bits else bits)⟩

/-- The mantissa and the exponent of two of a finite magnitude, which is `m * 2 ^ (e - 1074)`. -/
def parts (bits : Nat) : Nat × Nat :=
  let exponent := bits / fractionSize
  let fraction := bits % fractionSize
  if exponent = 0 then (fraction, 0) else (fractionSize + fraction, exponent - 1)

def ratio (bits : Nat) : Nat × Nat :=
  let (m, e) := parts bits
  if 1074 ≤ e then (m * Nat.pow 2 (e - 1074), 1) else (m, Nat.pow 2 (1074 - e))

/-- The quotient rounded to the nearest natural number, a tie to the even one. -/
def divideToEven (n d : Nat) : Nat :=
  let q := n / d
  let r := n % d
  if 2 * r < d then q
  else if d < 2 * r then q + 1
  else if q % 2 = 0 then q else q + 1

/-- The magnitude bits nearest to `n / d`; infinity from half a unit above the largest double. -/
def ofRatio (n d : Nat) : Nat :=
  if n = 0 then 0 else
    -- `n * 2 ^ 1074 / d` lies between `2 ^ (k - 1)` and `2 ^ (k + 1)`
    let scaled := n * Nat.pow 2 1074
    let k := Nat.log2 scaled - Nat.log2 d
    let top := if d * Nat.pow 2 k ≤ scaled then k else k - 1
    let shift := top - 52
    let m := divideToEven scaled (d * Nat.pow 2 shift)
    min (shift * fractionSize + m) infinityBits

def ofNat (n : Nat) : Nat := ofRatio n 1

/-- The product of two finite magnitudes, rounded once. -/
def multiply (a b : Nat) : Nat :=
  let (an, ad) := ratio a
  let (bn, bd) := ratio b
  ofRatio (an * bn) (ad * bd)

def divide (a b : Nat) : Nat :=
  let (an, ad) := ratio a
  let (bn, bd) := ratio b
  ofRatio (an * bd) (ad * bn)

example : ofRatio 1 2 = 0x3fe0000000000000 := by decide +kernel
example : ofRatio 1 10 = 0x3fb999999999999a := by decide +kernel
example : ofNat (0x20000000000000 + 1) = ofNat 0x20000000000000 := by decide +kernel

end Double

end RemoteNode
