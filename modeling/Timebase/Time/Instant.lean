import Timebase.Decimal.Fixed
/-!
# Instants

An instant counts ticks of the master clock since power-on in 64 bits. The greatest two counts are
sentinels: one asks for the earliest opportunity and sorts before all others, one is never reached.
-/

namespace Timebase

/-- Frequency of the master clock: a multiple of the usual CPU, sound and video clocks. -/
def mainFreq : Nat := 3579545 * 960

structure Instant where
  ticks : Nat
  ticks_lt : ticks < UInt64.size
  deriving DecidableEq, Repr

namespace Instant

def zero : Instant := ⟨0, by decide⟩

/-- The earliest opportunity; no operand of arithmetic. -/
def asap : Instant := ⟨UInt64.size - 1, by decide⟩

/-- Later than all that is ever reached. -/
def never : Instant := ⟨UInt64.size - 2, by decide⟩

instance : Inhabited Instant := ⟨zero⟩

def ofTicks? (n : Nat) : Option Instant :=
  if h : n < UInt64.size then some ⟨n, h⟩ else none

/-- The instant whose count is the low 64 bits of a number. -/
def wrap (n : Nat) : Instant := ⟨n % UInt64.size, Nat.mod_lt _ (by decide)⟩

def isAsap (t : Instant) : Bool := t == asap

/-- Neither sentinel. -/
def isFinite (t : Instant) : Bool := t != asap && t != never

/-- Place in the order: the earliest opportunity, then zero, then one. -/
def key (t : Instant) : Nat := if t.isAsap then 0 else t.ticks + 1

/-- The instant at a place in the order. -/
def ofKey (key : Nat) : Instant := if key = 0 then asap else wrap (key - 1)

instance : LE Instant := ⟨fun a b => a.key ≤ b.key⟩
instance : LT Instant := ⟨fun a b => a.key < b.key⟩
instance (a b : Instant) : Decidable (a ≤ b) := inferInstanceAs (Decidable (a.key ≤ b.key))
instance (a b : Instant) : Decidable (a < b) := inferInstanceAs (Decidable (a.key < b.key))

def compare (a b : Instant) : Ordering := Ord.compare a.key b.key

def earlier (a b : Instant) : Instant := if b < a then b else a

/-- The instant with the greater count of ticks. -/
def later (a b : Instant) : Instant := if a.ticks < b.ticks then b else a

/-- Whole periods of a clock of `freq` Hz since power-on, in 64 bits. -/
def periods (t : Instant) (freq : Nat) : Nat := t.ticks * freq / mainFreq % UInt64.size

def seconds (t : Instant) : Float := Float.ofNat t.ticks / Float.ofNat mainFreq

def text (t : Instant) : String :=
  if t.isAsap then "ASAP"
  else if t = never then "never"
  else toString t.ticks ++ " (" ++ Decimal.fixed 6 t.seconds ++ "s)"

/-- Text that tells every instant apart and names its type. -/
def debugText (t : Instant) : String :=
  "EmuTime(" ++ (if t.isAsap then "ASAP" else if t = never then "inf" else toString t.ticks) ++ ")"

/-- Ascending, equal instants in the order they stand in. -/
def sort (ts : List Instant) : List Instant := ts.mergeSort (fun a b => decide (a ≤ b))

@[ext] theorem ext {a b : Instant} (h : a.ticks = b.ticks) : a = b := by
  cases a; cases b; simp_all

@[simp] theorem isAsap_iff {t : Instant} : t.isAsap = true ↔ t = asap := by
  simp [isAsap]

theorem key_of_ne_asap {t : Instant} (h : t ≠ asap) : t.key = t.ticks + 1 := by
  simp [key, h]

theorem key_lt (t : Instant) : t.key < UInt64.size := by
  have hlt := t.ticks_lt
  by_cases h : t = asap
  · simp [key, h]
  · have hne : t.ticks ≠ UInt64.size - 1 := fun he => h (ext he)
    rw [key_of_ne_asap h]
    omega

theorem ofKey_key (t : Instant) : ofKey t.key = t := by
  by_cases h : t = asap
  · simp [ofKey, key, h]
  · ext
    simp only [ofKey, key_of_ne_asap h, wrap, Nat.add_one_ne_zero, if_false, Nat.add_sub_cancel]
    exact Nat.mod_eq_of_lt t.ticks_lt

theorem key_injective {a b : Instant} (h : a.key = b.key) : a = b := by
  rw [← ofKey_key a, h, ofKey_key]

end Instant
end Timebase
