import RemoteNode.Duration

/-!
The longest a round trip may take: whole milliseconds, at least one, that fit a 64-bit word.
-/

namespace RemoteNode.Exchange

/-- The longest a round trip may take. -/
structure Timeout where
  milliseconds : Nat
  positive : 0 < milliseconds
  bounded : milliseconds < UInt64.size
  deriving DecidableEq

namespace Timeout

/-- The longest timeout. -/
def greatest : Nat := UInt64.size - 1

def ofDuration (d : Duration) : Timeout where
  milliseconds := max 1 (min d.milliseconds greatest)
  positive := by omega
  bounded := by simp only [greatest, UInt64.size]; omega

def duration (t : Timeout) : Duration := .ofMilliseconds t.milliseconds

/-- Ten seconds, where none is chosen. -/
def standard : Timeout := ofDuration (.ofSeconds 10 0)

instance : Inhabited Timeout := ⟨standard⟩

end Timeout

end RemoteNode.Exchange
