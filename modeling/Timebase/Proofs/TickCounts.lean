import Timebase.Proofs.Rates

/-!
# Two counts of the same ticks

An instant tells how many whole periods of a rate have passed since power-on, and a clock of that
rate how many of its ticks. Both divide, but a tick that falls between two master ticks is told at
the earlier one, where its period is not yet over. So the clock is one ahead while such a tick is in
progress, and nowhere else.
-/

namespace Timebase

variable {freq : Nat} {t : Instant}

/-- No wrapping: at most one period passes in a master tick. -/
theorem Instant.periods_eq (hle : freq ≤ mainFreq) (t : Instant) :
    t.periods freq = t.ticks * freq / mainFreq := by
  have hcount : t.ticks * freq / mainFreq ≤ t.ticks :=
    Nat.div_le_of_le_mul (by
      rw [Nat.mul_comm]
      exact Nat.mul_le_mul_right _ hle)
  exact Nat.mod_eq_of_lt (Nat.lt_of_le_of_lt hcount t.ticks_lt)

namespace Clock

/-- How the ticks of a clock till an instant compare with the whole periods until then. -/
structure CountsAlike (freq : Nat) (t : Instant) (n : Nat) : Prop where
  close : t.periods freq ≤ n ∧ n ≤ t.periods freq + 1
  ahead_iff : n = t.periods freq + 1 ↔ mainFreq < t.ticks * freq % mainFreq + freq
  between_iff : n = t.periods freq + 1 ↔
    (t.ticks : ℚ) < (t.periods freq + 1) * (mainFreq / freq) ∧
      (t.periods freq + 1) * (mainFreq / freq) < (t.ticks + 1 : ℚ)
  same_of_dvd : freq ∣ mainFreq → n = t.periods freq

/-- The division that looks a tick up comes to a whole period more than the one that counts periods
if less than the length of a tick is missing. -/
theorem last_eq (hfreq : 0 < freq ∧ freq ≤ mainFreq) (s : Nat) :
    ((s + 1) * freq - 1) / mainFreq =
      s * freq / mainFreq + if mainFreq < s * freq % mainFreq + freq then 1 else 0 := by
  have hmain : 0 < mainFreq := by decide
  have hrest : s * freq % mainFreq < mainFreq := Nat.mod_lt _ hmain
  have hsplit : (s + 1) * freq - 1 =
      (s * freq % mainFreq + freq - 1) + mainFreq * (s * freq / mainFreq) := by
    have hdivide := Nat.mod_add_div (s * freq) mainFreq
    rw [Nat.add_mul, Nat.one_mul]
    omega
  rw [hsplit, Nat.add_mul_div_left _ _ hmain, Nat.add_comm]
  congr 1
  split
  · exact Nat.div_eq_of_lt_le (by omega) (by omega)
  · exact Nat.div_eq_of_lt (by omega)

theorem rest_le_of_dvd (h : freq ∣ mainFreq) (s : Nat) :
    s * freq % mainFreq + freq ≤ mainFreq := by
  obtain ⟨period, hperiod⟩ := h
  have hpos : 0 < period := Nat.pos_of_ne_zero (by
    rintro rfl
    exact absurd (hperiod.trans (Nat.mul_zero _)) (by decide))
  have hrest : s % period + 1 ≤ period := Nat.mod_lt _ hpos
  calc s * freq % mainFreq + freq = freq * (s % period) + freq := by
        rw [hperiod, Nat.mul_comm s, Nat.mul_mod_mul_left]
    _ = freq * (s % period + 1) := (Nat.mul_succ _ _).symm
    _ ≤ freq * period := Nat.mul_le_mul_left _ hrest
    _ = mainFreq := hperiod.symm

/-- The next tick is always later, and a master tick later it has passed if less than its length is
missing. -/
theorem between_iff (hpos : 0 < freq) (s : Nat) :
    ((s : ℚ) < ((s * freq / mainFreq : Nat) + 1) * (mainFreq / freq) ∧
      ((s * freq / mainFreq : Nat) + 1) * (mainFreq / freq) < (s + 1 : ℚ)) ↔
        mainFreq < s * freq % mainFreq + freq := by
  have hfreq : (0 : ℚ) < freq := Nat.cast_pos.mpr hpos
  have hdivide := Nat.mod_add_div (s * freq) mainFreq
  have hrest : s * freq % mainFreq < mainFreq := Nat.mod_lt _ (by decide)
  rw [← mul_div_assoc, lt_div_iff₀ hfreq, div_lt_iff₀ hfreq]
  norm_cast
  rw [Nat.add_mul, Nat.add_mul, Nat.one_mul, Nat.one_mul, Nat.mul_comm _ mainFreq]
  omega

theorem countsAlike (hfreq : 0 < freq ∧ freq ≤ mainFreq) (t : Instant) :
    CountsAlike freq t (((t.ticks + 1) * freq - 1) / mainFreq) := by
  have hahead : ((t.ticks + 1) * freq - 1) / mainFreq = t.periods freq + 1 ↔
      mainFreq < t.ticks * freq % mainFreq + freq := by
    rw [last_eq hfreq, Instant.periods_eq hfreq.2]
    split <;> omega
  refine ⟨?_, hahead, ?_, ?_⟩
  · rw [last_eq hfreq, Instant.periods_eq hfreq.2]
    split <;> omega
  · rw [hahead, ← between_iff hfreq.1, Instant.periods_eq hfreq.2]
  · intro hdvd
    rw [last_eq hfreq, if_neg (Nat.not_lt.mpr (rest_le_of_dvd hdvd _)),
      Instant.periods_eq hfreq.2, Nat.add_zero]

theorem new_zero (hfreq : 0 < freq ∧ freq ≤ mainFreq) :
    new .zero freq = .ok (fixed freq hfreq .zero) :=
  setRatio_eq_ok.mpr ⟨.fixed hfreq .zero, .zero, time_reset ⟨.zero, 0, 1, 1⟩ .zero, rfl⟩

theorem tick_counts_differ_by_the_tick_in_progress (hfreq : 0 < freq ∧ freq ≤ mainFreq)
    (ht : t ≠ .asap) : ∃ c n, new .zero freq = .ok c ∧ c = fixed freq hfreq .zero ∧
      c.ticksTill t = .ok n ∧ CountsAlike freq t n := by
  have hanchor : (fixed freq hfreq .zero).anchor ≠ .asap := (by decide : Instant.zero ≠ .asap)
  have hreached : ¬ t < (fixed freq hfreq .zero).anchor := by
    rw [Instant.lt_iff_ticks ht hanchor]
    exact Nat.not_lt_zero _
  have hlast := lastTick_of_le (.fixed hfreq .zero) hanchor ht (Nat.zero_le _)
  refine ⟨_, _, new_zero hfreq, rfl, ?_, countsAlike hfreq t⟩
  rw [ticksTill, if_neg hreached, hlast]
  show Except.ok (((t.ticks + 1) * freq - 1) / (mainFreq * 1) - 0) = _
  rw [Nat.mul_one, Nat.sub_zero]

/-- Sound at 96 kHz: the first tick falls between the master ticks 35795 and 35796. -/
theorem tick_counts_differ_by_the_tick_in_progress_sound :
    ∃ c n, new .zero 96000 = .ok c ∧ c.ticksTill ⟨35795, by decide⟩ = .ok n ∧
      CountsAlike 96000 ⟨35795, by decide⟩ n ∧ n = 1 ∧
      Instant.periods ⟨35795, by decide⟩ 96000 = 0 := by
  obtain ⟨c, n, hc, -, hn, halike⟩ := tick_counts_differ_by_the_tick_in_progress
    (by decide : 0 < 96000 ∧ 96000 ≤ mainFreq) (t := ⟨35795, by decide⟩) (by decide)
  exact ⟨c, n, hc, hn, halike, halike.ahead_iff.mpr (by decide), by decide⟩

end Clock
end Timebase
