import Timebase.Time.Span
import Timebase.Fault
/-!
# Rate conversion

Counts of one clock become counts of another. What is left over from one conversion is carried
into the next, so that nothing is lost however a count is split up.
-/

namespace Timebase

structure RateConverter where
  source : Nat
  target : Nat
  /-- Left over, in units of one target count divided by the source rate. -/
  remainder : Nat
  deriving DecidableEq, Repr

namespace RateConverter

def new (source target : Nat) : Attempt RateConverter :=
  if source = 0 ∨ target = 0 then Attempt.refuseTime .zeroFrequency
  else .ok ⟨source, target, 0⟩

/-- From master clock ticks. -/
def ofMaster (target : Nat) : Attempt RateConverter := new mainFreq target

/-- Whole target counts, in 64 bits, and the converter with what is left over. -/
def convert (c : RateConverter) (count : Nat) : Nat × RateConverter :=
  let total := count * c.target + c.remainder
  (total / c.source % UInt64.size, { c with remainder := total % c.source })

/-- Converts a span of master clock ticks, which must not be negative. -/
def convertSpan (c : RateConverter) (d : Span) : Attempt (Nat × RateConverter) := do
  Attempt.demand (!d.isNegative) .negativeSpan
  return c.convert d.ticks.toNat

def reset (c : RateConverter) : RateConverter := { c with remainder := 0 }

end RateConverter
end Timebase
