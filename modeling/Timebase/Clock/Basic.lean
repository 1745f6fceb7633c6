import Timebase.Time.Span
import Timebase.Time.Word
import Timebase.Run
/-!
# Clocks

A clock has its own rate and counts its ticks from an anchor on the master clock. The instant of a
tick is always computed from the anchor with the exact rational period and only then rounded down,
so that steps add up to jumps.
-/

namespace Timebase

/-- A clock of `num / den` Hz that stands `count` ticks behind its anchor. -/
structure Clock where
  anchor : Instant
  count : Nat
  num : Nat
  den : Nat
  deriving DecidableEq, Repr

namespace Clock

/-- The period is `stepNum / stepDen` master ticks. -/
def stepNum (c : Clock) : Nat := mainFreq * c.den

def stepDen (c : Clock) : Nat := c.num

/-- Master ticks from the anchor to tick `n`, in 64 bits. -/
def offset (c : Clock) (n : Nat) : Nat := n * c.stepNum / c.stepDen % UInt64.size

/-- Instant of the tick numbered from the anchor. -/
def instantOf (c : Clock) (n : Nat) : Attempt Instant :=
  if h : c.anchor.ticks + c.offset n < UInt64.size then .ok ⟨c.anchor.ticks + c.offset n, h⟩
  else Attempt.violate (.overflow .add)

/-- Instant of the current tick. -/
def time (c : Clock) : Attempt Instant := c.instantOf c.count

/-- Number of the last tick at or before an instant. -/
def lastTick (c : Clock) (t : Instant) : Attempt Nat := do
  Attempt.demand (decide (c.anchor ≤ t)) .beforeAnchor
  let d ← Word.subtract t.ticks c.anchor.ticks
  return ((d + 1) * c.stepDen - 1) / c.stepNum % UInt64.size

/-- Ticks after the current one and not after an instant. -/
def ticksTill (c : Clock) (t : Instant) : Attempt Nat :=
  if t < c.anchor then .ok 0
  else (· - c.count) <$> c.lastTick t

/-- Instant of the `n`-th tick after the current one. -/
def timeAfter (c : Clock) (n : Nat) : Attempt Instant := do
  c.instantOf (← Word.add c.count n)

/-- Moves to the last tick at or before an instant. -/
def advance (c : Clock) (t : Instant) : Attempt Clock := do
  Attempt.demand (decide ((← c.time) ≤ t)) .beforeTick
  let last ← c.lastTick t
  return { c with count := max c.count last }

def forward (c : Clock) (n : Nat) : Attempt Clock := do
  return { c with count := (← Word.add c.count n) }

/-- Makes an instant the current tick. -/
def reset (c : Clock) (t : Instant) : Clock := { c with anchor := t, count := 0 }

/-- Makes the current tick the anchor. -/
def rebase (c : Clock) : Attempt Clock := do
  return c.reset (← c.time)

/-- Changes the rate from the current tick on. -/
def setRatio (c : Clock) (num den : Nat) : Attempt Clock :=
  if num = 0 ∨ den = 0 then Attempt.refuseTime .zeroFrequency
  else if mainFreq < num / den then Attempt.refuseTime (.frequencyTooHigh (num / den))
  else if UInt32.size ≤ num ∨ UInt32.size ≤ den then Attempt.refuseTime .overflow
  else do return { (← c.rebase) with num, den }

def setFreq (c : Clock) (freq : Nat) : Attempt Clock := c.setRatio freq 1

/-- A clock at an instant whose rate is given from outside. -/
def new (t : Instant) (freq : Nat) : Attempt Clock := setFreq ⟨t, 0, 1, 1⟩ freq

/-- A clock at an instant whose rate is known to be no higher than that of the master clock. -/
def fixed (freq : Nat) (_ : 0 < freq ∧ freq ≤ mainFreq) (t : Instant) : Clock := ⟨t, 0, freq, 1⟩

/-- Frequency in whole Hz. -/
def freq (c : Clock) : Nat := c.num / c.den

/-- Length of a tick in whole master ticks. -/
def period (c : Clock) : Span := Span.wrap (c.stepNum / c.stepDen : Nat)

/-- Moves to the instant of the next tick. -/
def step (c : Clock) : Attempt Clock := do
  c.advance (← c.timeAfter 1)

/-- Moves tick by tick. -/
def walk (n : Nat) : Run Clock Unit := Run.iterate (Run.update step) n

end Clock
end Timebase
