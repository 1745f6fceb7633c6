import Mathlib.Data.Rat.Floor
import Timebase.Proofs.Conversion
import Timebase.Proofs.Time.Operators

/-!
# Conversions of units

Seconds are multiplied in 64 bits and checked. All other conversions are computed in full, cut off
to a whole number and then narrowed to 64 bits: they are exact as long as the whole number is one of
64 bits, and beyond that only its low 64 bits are left. So long spans of time are refused as seconds
and told wrongly as milliseconds and microseconds.
-/

namespace Timebase

open RateConverter (Reached)

/-- The whole number that a quantity comes to when its fraction is cut off. -/
def cutOff (q : ℚ) : Int := if 0 ≤ q then ⌊q⌋ else ⌈q⌉

theorem cutOff_div (n : Int) (m : Nat) : cutOff (n / m) = n.tdiv m := by
  by_cases hn : 0 ≤ n
  · have hq : (0 : ℚ) ≤ n / m := div_nonneg (Int.cast_nonneg hn) (Nat.cast_nonneg m)
    rw [cutOff, if_pos hq, Rat.floor_intCast_div_natCast, Int.tdiv_eq_ediv_of_nonneg hn]
  · have hopposite : 0 ≤ -n := by omega
    have hceil : ⌈(n / m : ℚ)⌉ = n.tdiv m := by
      rw [Rat.ceil_intCast_div_natCast, ← Int.tdiv_eq_ediv_of_nonneg hopposite, Int.neg_tdiv,
        Int.neg_neg]
    by_cases hq : (0 : ℚ) ≤ n / m
    · -- Below zero the quotient is not negative only if it is zero.
      have hm : m = 0 := by
        by_contra hm
        have hneg : (n : ℚ) < 0 := Int.cast_lt_zero.mpr (by omega)
        have hpos : (0 : ℚ) < m := Nat.cast_pos.mpr (Nat.pos_of_ne_zero hm)
        exact absurd hq (not_le.mpr (div_neg_of_neg_of_pos hneg hpos))
      rw [cutOff, if_pos hq, hm, Nat.cast_zero, div_zero, Int.floor_zero]
      exact (Int.tdiv_zero n).symm
    · rw [cutOff, if_neg hq, hceil]

theorem cutOff_div_nat (n m : Nat) : cutOff (n / m) = (n / m : Nat) := by
  rw [← Int.cast_natCast (R := ℚ) n, cutOff_div]
  rfl

/-- A number of 64 bits, the least of which is given, that stands for a quantity: exactly but for
the fraction if that is one of those numbers, and by its low 64 bits in any case. -/
structure Narrowed (least : Int) (q : ℚ) (n : Int) : Prop where
  range : least ≤ n ∧ n < least + UInt64.size
  low : n % UInt64.size = cutOff q % UInt64.size
  exact_iff : n = cutOff q ↔ least ≤ cutOff q ∧ cutOff q < least + UInt64.size

/-- Numbers that are less than 64 bits apart are told apart by their low 64 bits. -/
theorem Narrowed.of_low {least n : Int} {q : ℚ} (range : least ≤ n ∧ n < least + UInt64.size)
    (low : n % UInt64.size = cutOff q % UInt64.size) : Narrowed least q n := by
  refine ⟨range, low, fun h => h ▸ range, fun h => ?_⟩
  have hsize : (UInt64.size : Int) = 18446744073709551616 := rfl
  rw [hsize] at range low h
  omega

namespace Span

theorem narrowed_wrap (n : Int) (m : Nat) :
    Narrowed (-9223372036854775808) (n / m) (wrap (n.tdiv m)).ticks := by
  have hleast := (wrap (n.tdiv m)).least
  have hgreatest := (wrap (n.tdiv m)).greatest
  have hsize : (UInt64.size : Int) = 18446744073709551616 := rfl
  exact .of_low ⟨hleast, by omega⟩ (by rw [cutOff_div, wrap_emod])

theorem narrowed_milliseconds (n : Int) :
    Narrowed (-9223372036854775808) (n * mainFreq / 1000) (milliseconds n).ticks := by
  have h := narrowed_wrap (n * mainFreq) 1000
  rwa [Int.cast_mul, Int.cast_natCast] at h

theorem narrowed_microseconds (n : Int) :
    Narrowed (-9223372036854775808) (n * mainFreq / 1000000) (microseconds n).ticks := by
  have h := narrowed_wrap (n * mainFreq) 1000000
  rwa [Int.cast_mul, Int.cast_natCast] at h

theorem narrowed_periods (d : Span) (freq : Nat) :
    Narrowed (-9223372036854775808) (d.ticks * freq / mainFreq) (d.periods freq) := by
  have h := narrowed_wrap (d.ticks * freq) mainFreq
  rwa [Int.cast_mul, Int.cast_natCast] at h

/-- A number of seconds comes to the exact span, or is a violation if there is none. -/
structure TellsSeconds (n : Int) : Prop where
  exact : Fits (n * mainFreq) → ∃ d, ofSeconds n = .ok d ∧ d.ticks = n * mainFreq
  violated : ¬ Fits (n * mainFreq) → ofSeconds n = Attempt.violate (.overflow .multiply)

theorem tellsSeconds (n : Int) : TellsSeconds n := ⟨exact_of_fits, exact_of_not_fits⟩

/-- The same time in three units: one span if there is a span that long. If there is none, only the
seconds say so, and the two others agree on a span of another length. -/
structure UnitsAgree (n : Int) : Prop where
  same : Fits (n * mainFreq) → ∃ d, ofSeconds n = .ok d ∧ milliseconds (1000 * n) = d ∧
    microseconds (1000000 * n) = d ∧ d.ticks = n * mainFreq
  cut : ¬ Fits (n * mainFreq) → ofSeconds n = Attempt.violate (.overflow .multiply) ∧
    milliseconds (1000 * n) = wrap (n * mainFreq) ∧
    microseconds (1000000 * n) = wrap (n * mainFreq) ∧ (wrap (n * mainFreq)).ticks ≠ n * mainFreq

theorem milliseconds_mul (n : Int) : milliseconds (1000 * n) = wrap (n * mainFreq) := by
  rw [milliseconds, Int.mul_assoc, Int.mul_tdiv_cancel_left _ (by decide)]

theorem microseconds_mul (n : Int) : microseconds (1000000 * n) = wrap (n * mainFreq) := by
  rw [microseconds, Int.mul_assoc, Int.mul_tdiv_cancel_left _ (by decide)]

theorem unitsAgree (n : Int) : UnitsAgree n := by
  constructor
  · intro hfits
    obtain ⟨d, hd, hticks⟩ := (tellsSeconds n).exact hfits
    have hwrap : wrap (n * mainFreq) = d := by
      ext
      rw [wrap_of_range hfits.1 hfits.2, hticks]
    rw [milliseconds_mul, microseconds_mul]
    exact ⟨d, hd, hwrap, hwrap, hticks⟩
  · intro hlong
    refine ⟨(tellsSeconds n).violated hlong, milliseconds_mul n, microseconds_mul n, fun h => ?_⟩
    have hleast := (wrap (n * mainFreq)).least
    have hgreatest := (wrap (n * mainFreq)).greatest
    rw [h] at hleast hgreatest
    exact hlong ⟨hleast, hgreatest⟩

end Span

theorem narrowed_mod (n m : Nat) : Narrowed 0 (n / m) (n / m % UInt64.size : Nat) := by
  have hlt : n / m % UInt64.size < UInt64.size := Nat.mod_lt _ (by decide)
  refine .of_low ⟨Int.natCast_nonneg _, by omega⟩ ?_
  rw [cutOff_div_nat, Int.natCast_mod, Int.emod_emod]

theorem Instant.narrowed_periods (t : Instant) (freq : Nat) :
    Narrowed 0 (t.ticks * freq / mainFreq) (t.periods freq) := by
  have h := narrowed_mod (t.ticks * freq) mainFreq
  rwa [Nat.cast_mul] at h

/-- A count of one clock in counts of another, with what an earlier conversion has left over: the
result is narrowed to 64 bits, and what is carried on is the exact rest all the same. -/
structure RateConverter.TellsCounts (c : RateConverter) (count : Nat) : Prop where
  result : Narrowed 0 ((count * c.target + c.remainder) / c.source) (c.convert count).1
  carried : cutOff ((count * c.target + c.remainder) / c.source) * c.source +
    (c.convert count).2.remainder = count * c.target + c.remainder
  carried_lt : (c.convert count).2.remainder < c.source
  rates : (c.convert count).2.source = c.source ∧ (c.convert count).2.target = c.target

theorem RateConverter.Reached.tellsCounts {source target : Nat} {c : RateConverter}
    (h : Reached source target c) (count : Nat) : c.TellsCounts count := by
  have htotal : ((count * c.target + c.remainder : Nat) : ℚ) =
      count * c.target + c.remainder := by
    rw [Nat.cast_add, Nat.cast_mul]
  have hpos : 0 < c.source := Nat.lt_of_le_of_lt (Nat.zero_le _) (h.rates.1 ▸ h.rates.2.2)
  refine ⟨?_, ?_, Nat.mod_lt _ hpos, rfl, rfl⟩
  · rw [← htotal]
    exact narrowed_mod _ _
  · rw [← htotal, cutOff_div_nat]
    show (_ : Int) + ((count * c.target + c.remainder) % c.source : Nat) = _
    exact_mod_cast Nat.div_add_mod' (count * c.target + c.remainder) c.source

theorem units_are_exact_within_64_bits {source target : Nat} {c : RateConverter}
    (hc : Reached source target c) (n : Int) (d : Span) (t : Instant) (freq count : Nat) :
    Span.TellsSeconds n ∧
      Narrowed (-9223372036854775808) (n * mainFreq / 1000) (Span.milliseconds n).ticks ∧
      Narrowed (-9223372036854775808) (n * mainFreq / 1000000) (Span.microseconds n).ticks ∧
      Narrowed (-9223372036854775808) (d.ticks * freq / mainFreq) (d.periods freq) ∧
      Narrowed 0 (t.ticks * freq / mainFreq) (t.periods freq) ∧ c.TellsCounts count ∧
      Span.UnitsAgree n :=
  ⟨Span.tellsSeconds n, Span.narrowed_milliseconds n, Span.narrowed_microseconds n,
    Span.narrowed_periods d freq, Instant.narrowed_periods t freq, hc.tellsCounts count,
    Span.unitsAgree n⟩

/-- Sound at 96 kHz for a third of a millisecond, with what the third before has left over. -/
theorem units_are_exact_within_64_bits_third :
    ∃ c, Reached mainFreq 96000 c ∧ c.TellsCounts 1145454 ∧
      c = ⟨mainFreq, 96000, 3436324800⟩ ∧ (c.convert 1145454).1 = 32 := by
  obtain ⟨c, hc⟩ : ∃ c, RateConverter.new mainFreq 96000 = .ok c := ⟨_, rfl⟩
  have hreached : Reached mainFreq 96000 (c.convert 1145454).2 := .converted _ (.made hc)
  obtain ⟨-, -, -, -, -, hcounts, -⟩ :=
    units_are_exact_within_64_bits hreached 0 .zero .zero 96000 1145454
  refine ⟨_, hreached, hcounts, ?_, ?_⟩
  all_goals
    cases hc
    rfl

/-- As many seconds as a span has no room for: given in milliseconds or microseconds they come out
as a negative span. -/
theorem long_time_told_negative :
    Span.ofSeconds 2684050405 = Attempt.violate (.overflow .multiply) ∧
      (Span.milliseconds 2684050405000).ticks = -9223372035022455616 ∧
      (Span.microseconds 2684050405000000).ticks = -9223372035022455616 ∧
      cutOff ((2684050405000 : Int) * mainFreq / 1000) = 9223372038687096000 := by
  have hlong : ¬ Span.Fits (2684050405 * mainFreq) := fun h => absurd h.2 (by decide)
  refine ⟨((Span.unitsAgree 2684050405).cut hlong).1, by decide, by decide, ?_⟩
  have hexact := cutOff_div (2684050405000 * mainFreq) 1000
  rw [Int.cast_mul, Int.cast_natCast] at hexact
  exact hexact

end Timebase
