import Timebase.Fault
import Timebase.Time.Span
/-!
# Arithmetic on instants and spans

Plain operations are exact or a violation, checked ones are exact or refused. Only the difference
of two instants wraps around.
-/

namespace Timebase

namespace Span

/-- Exact, or a violation of the operation that was asked for. -/
def exact (operation : Operation) (n : Int) : Attempt Span :=
  match ofTicks? n with
  | some d => .ok d
  | none => Attempt.violate (.overflow operation)

/-- Exact, or refused. -/
def checked (n : Int) : Attempt Span :=
  match ofTicks? n with
  | some d => .ok d
  | none => Attempt.refuseTime .overflow

def add (a b : Span) : Attempt Span := exact .add (a.ticks + b.ticks)
def subtract (a b : Span) : Attempt Span := exact .subtract (a.ticks - b.ticks)
def multiply (a : Span) (n : Int) : Attempt Span := exact .multiply (a.ticks * n)
def negate (a : Span) : Attempt Span := exact .negate (-a.ticks)
def magnitude (a : Span) : Attempt Span := if a.isNegative then a.negate else .ok a
def addChecked (a b : Span) : Attempt Span := checked (a.ticks + b.ticks)
def multiplyChecked (a : Span) (n : Int) : Attempt Span := checked (a.ticks * n)

/-- Division toward zero. -/
def divide (a : Span) (n : Int) : Attempt Span :=
  if n = 0 then Attempt.violate .divideByZero else exact .divide (a.ticks.tdiv n)

/-- How many times another span fits into this one. -/
def times (a b : Span) : Attempt Int := (·.ticks) <$> a.divide b.ticks

def ofSeconds (n : Int) : Attempt Span := exact .multiply (n * mainFreq)

/-- One period of a clock of `freq` Hz in whole ticks. -/
def period (freq : Nat) : Attempt Span :=
  if freq = 0 then Attempt.violate .divideByZero else .ok (wrap (mainFreq / freq : Nat))

/-- One period of a clock that is no faster than the master clock. -/
def periodChecked (freq : Nat) : Attempt Span :=
  if freq = 0 then Attempt.refuseTime .zeroFrequency
  else if mainFreq < freq then Attempt.refuseTime (.frequencyTooHigh freq)
  else period freq

end Span

namespace Instant

/-- The instant a span away, refused unless it is finite. -/
def addChecked (t : Instant) (d : Span) : Attempt Instant := do
  Attempt.demand (!t.isAsap) .asapInstant
  let n := (t.ticks : Int) + d.ticks
  if 0 ≤ n then
    match ofTicks? n.toNat with
    | some t' => if t'.isFinite then .ok t' else Attempt.refuseTime .overflow
    | none => Attempt.refuseTime .overflow
  else Attempt.refuseTime .overflow

/-- The instant a span away, a violation unless its count fits into 64 bits. -/
def add (t : Instant) (d : Span) : Attempt Instant := do
  Attempt.demand (!t.isAsap) .asapInstant
  let n := (t.ticks : Int) + d.ticks
  if 0 ≤ n then
    match ofTicks? n.toNat with
    | some t' => .ok t'
    | none => Attempt.violate .instantOutOfRange
  else Attempt.violate .instantOutOfRange

def subtract (t : Instant) (d : Span) : Attempt Instant := do
  t.add (← d.negate)

/-- The span from another instant to this one, wrapped to 64 bits. -/
def since (t other : Instant) : Attempt Span := do
  Attempt.demand (!t.isAsap && !other.isAsap) .asapOperand
  return Span.wrap ((t.ticks : Int) - other.ticks)

/-- The span since an earlier instant, none if that is later. -/
def sinceEarlier (t earlier : Instant) : Attempt Span := do
  Attempt.demand (!t.isAsap && !earlier.isAsap) .asapStart
  return Span.wrap (t.ticks - earlier.ticks : Nat)

end Instant
end Timebase
