import RemoteNode.Text.Decimal

/-!
Lengths of time to the nanosecond, and their short text: whole seconds, milliseconds, microseconds
or nanoseconds, whichever is the largest unit not above the value, with the rest as a decimal
fraction that has no trailing zero.
-/

namespace RemoteNode

/-- A length of time in nanoseconds. -/
structure Duration where
  nanoseconds : Nat
  deriving DecidableEq, Repr, Inhabited

namespace Duration

def ofMilliseconds (n : Nat) : Duration := ⟨n * 1000000⟩

def ofSeconds (seconds nanoseconds : Nat) : Duration := ⟨seconds * 1000000000 + nanoseconds⟩

def milliseconds (d : Duration) : Nat := d.nanoseconds / 1000000

def seconds (d : Duration) : Nat := d.nanoseconds / 1000000000

def subsecond (d : Duration) : Nat := d.nanoseconds % 1000000000

def isZero (d : Duration) : Bool := d.nanoseconds == 0

def withoutTrailingZeros (cs : List Char) : List Char :=
  (cs.reverse.dropWhile (· == '0')).reverse

/-- A count of units of `size` nanoseconds with its fraction, which has at most so many places. -/
def inUnit (size places n : Nat) (unit : String) : String :=
  let whole := toString (n / size)
  let fraction := withoutTrailingZeros (Text.Decimal.padded places (n % size))
  let point := if places = 0 ∨ fraction.isEmpty then "" else "." ++ String.ofList fraction
  whole ++ point ++ unit

def text (d : Duration) : String :=
  if 1000000000 ≤ d.nanoseconds then inUnit 1000000000 9 d.nanoseconds "s"
  else if 1000000 ≤ d.nanoseconds then inUnit 1000000 6 d.nanoseconds "ms"
  else if 1000 ≤ d.nanoseconds then inUnit 1000 3 d.nanoseconds "µs"
  else inUnit 1 0 d.nanoseconds "ns"

@[simp] theorem milliseconds_ofMilliseconds (n : Nat) : (ofMilliseconds n).milliseconds = n := by
  simp [milliseconds, ofMilliseconds]

example : text ⟨1500000000⟩ = "1.5s" := by cbv
example : text ⟨120000000⟩ = "120ms" := by cbv
example : text ⟨1500⟩ = "1.5µs" := by cbv
example : text ⟨0⟩ = "0ns" := by cbv

end Duration

end RemoteNode
