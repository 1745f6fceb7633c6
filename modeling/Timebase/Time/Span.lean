import Timebase.Time.Instant
/-!
# Spans

A span is a signed number of master clock ticks in 64 bits.
-/

namespace Timebase

structure Span where
  ticks : Int
  least : -9223372036854775808 ≤ ticks
  greatest : ticks ≤ 9223372036854775807
  deriving DecidableEq, Repr

namespace Span

def zero : Span := ⟨0, by decide, by decide⟩

instance : Inhabited Span := ⟨zero⟩

def ofTicks? (n : Int) : Option Span :=
  if h : -9223372036854775808 ≤ n ∧ n ≤ 9223372036854775807 then some ⟨n, h.1, h.2⟩ else none

/-- The span whose ticks are the low 64 bits of a number, read with a sign. -/
def wrap (n : Int) : Span :=
  ⟨n.bmod UInt64.size,
    by
      have := Int.le_bmod (x := n) (m := UInt64.size) (by decide)
      simp only [UInt64.size] at this ⊢
      omega,
    by
      have := Int.bmod_lt (x := n) (m := UInt64.size) (by decide)
      simp only [UInt64.size] at this ⊢
      omega⟩

instance : LE Span := ⟨fun a b => a.ticks ≤ b.ticks⟩
instance : LT Span := ⟨fun a b => a.ticks < b.ticks⟩
instance (a b : Span) : Decidable (a ≤ b) := inferInstanceAs (Decidable (a.ticks ≤ b.ticks))
instance (a b : Span) : Decidable (a < b) := inferInstanceAs (Decidable (a.ticks < b.ticks))

def compare (a b : Span) : Ordering := Ord.compare a.ticks b.ticks

def isNegative (d : Span) : Bool := decide (d.ticks < 0)

/-- Whole periods of a clock of `freq` Hz, rounded toward zero, in 64 bits. -/
def periods (d : Span) (freq : Nat) : Int := ((d.ticks * freq).tdiv mainFreq).bmod UInt64.size

/-- Milliseconds, truncated to whole ticks, in 64 bits. -/
def milliseconds (n : Int) : Span := wrap ((n * mainFreq).tdiv 1000)

/-- Microseconds, truncated to whole ticks, in 64 bits. -/
def microseconds (n : Int) : Span := wrap ((n * mainFreq).tdiv 1000000)

private def toFloat (n : Int) : Float :=
  if n < 0 then -(Float.ofNat n.natAbs) else Float.ofNat n.natAbs

def seconds (d : Span) : Float := toFloat d.ticks / Float.ofNat mainFreq

def text (d : Span) : String :=
  toString d.ticks ++ " ticks (" ++ Decimal.fixed 6 d.seconds ++ "s)"

/-- Text that tells every span apart and names its type. -/
def debugText (d : Span) : String := "EmuDuration(" ++ toString d.ticks ++ ")"

@[ext] theorem ext {a b : Span} (h : a.ticks = b.ticks) : a = b := by
  cases a; cases b; simp_all

theorem wrap_of_range {n : Int} (h : -9223372036854775808 ≤ n)
    (h' : n ≤ 9223372036854775807) : (wrap n).ticks = n := by
  simp only [wrap, UInt64.size]
  rw [Int.bmod_eq_of_le_mul_two] <;> omega

end Span
end Timebase
