import Timebase.Fault
/-!
# Counts of 64 bits

Sums and products of unsigned 64-bit counts, exact or a violation.
-/

namespace Timebase.Word

def add (a b : Nat) : Attempt Nat :=
  if a + b < UInt64.size then .ok (a + b) else Attempt.violate (.overflow .add)

def subtract (a b : Nat) : Attempt Nat :=
  if b ≤ a then .ok (a - b) else Attempt.violate (.overflow .subtract)

def multiply (a b : Nat) : Attempt Nat :=
  if a * b < UInt64.size then .ok (a * b) else Attempt.violate (.overflow .multiply)

/-- The low 64 bits of a signed number. -/
def ofInt (n : Int) : Nat := (n % UInt64.size).toNat

end Timebase.Word
