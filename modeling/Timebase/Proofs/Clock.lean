import Mathlib.Data.ENat.Lattice
import Mathlib.Data.Set.Card
import Mathlib.Order.Interval.Finset.Nat
import Timebase.Clock.Basic
import Timebase.Proofs.Outcome
import Timebase.Proofs.Time.Order

/-!
# The ticks of a clock

A clock that runs from power-on ticks at fixed master ticks, each computed from its number alone.
Where ticks are at least one master tick apart, the number of the last one that has passed is the
count of those that have.
-/

namespace Timebase

namespace Clock

/-- Master ticks from power-on to tick `n` of a clock of `num / den` Hz. -/
def grid (num den n : Nat) : Nat := n * (mainFreq * den) / num

/-- A rate whose ticks are at least one master tick apart, and not too many. -/
structure Steady (num den : Nat) : Prop where
  pos : 0 < num
  apart : num ≤ mainFreq * den
  close : mainFreq * den / num < UInt32.size

variable {num den n m s : Nat} {c c' : Clock}

theorem Steady.of_freq (hpos : 0 < num) (hle : num ≤ mainFreq) : Steady num 1 := by
  refine ⟨hpos, by omega, ?_⟩
  have hdiv : mainFreq * 1 / num ≤ mainFreq * 1 := Nat.div_le_self _ _
  exact Nat.lt_of_le_of_lt hdiv (by decide)

theorem grid_zero (num den : Nat) : grid num den 0 = 0 := by
  rw [grid, Nat.zero_mul, Nat.zero_div]

theorem grid_one (freq n : Nat) : grid freq 1 n = n * mainFreq / freq := by
  rw [grid, Nat.mul_one]

theorem grid_mono (h : n ≤ m) : grid num den n ≤ grid num den m :=
  Nat.div_le_div_right (Nat.mul_le_mul_right _ h)

theorem grid_lt_of_apart (hpos : 0 < num) (hapart : num ≤ mainFreq * den) (n : Nat) :
    grid num den n < grid num den (n + 1) := by
  have hstep : n * (mainFreq * den) + num ≤ (n + 1) * (mainFreq * den) := by
    rw [Nat.succ_mul]
    exact Nat.add_le_add_left hapart _
  calc grid num den n < n * (mainFreq * den) / num + 1 := Nat.lt_succ_self _
    _ = (n * (mainFreq * den) + num) / num := (Nat.add_div_right _ hpos).symm
    _ ≤ grid num den (n + 1) := Nat.div_le_div_right hstep

/-- Ticks that are a master tick apart fall on different ones, so there are no more of them than
master ticks. -/
theorem le_grid_of_apart (hpos : 0 < num) (hapart : num ≤ mainFreq * den) (n : Nat) :
    n ≤ grid num den n := by
  rw [grid, Nat.le_div_iff_mul_le hpos]
  exact Nat.mul_le_mul_left n hapart

theorem Steady.grid_lt (h : Steady num den) (n : Nat) : grid num den n < grid num den (n + 1) :=
  grid_lt_of_apart h.pos h.apart n

theorem grid_succ_cases (hpos : 0 < num) (den n : Nat) :
    grid num den (n + 1) = grid num den n + mainFreq * den / num ∨
      grid num den (n + 1) = grid num den n + mainFreq * den / num + 1 := by
  rw [grid, grid, Nat.succ_mul, Nat.add_div hpos]
  split
  · exact Or.inr rfl
  · exact Or.inl rfl

theorem Steady.grid_succ_le (h : Steady num den) (n : Nat) :
    grid num den (n + 1) ≤ grid num den n + UInt32.size := by
  have hclose := h.close
  rcases grid_succ_cases h.pos den n with hnext | hnext <;> omega

theorem encard_passed (hn : grid num den n ≤ s) (hnext : s < grid num den (n + 1)) :
    {k | 1 ≤ k ∧ grid num den k ≤ s}.encard = n := by
  have hset : {k | 1 ≤ k ∧ grid num den k ≤ s} = (Finset.Icc 1 n : Set Nat) := by
    ext k
    rw [Finset.mem_coe, Finset.mem_Icc]
    refine and_congr_right fun _ => ⟨?_, ?_⟩
    · intro hk
      by_contra hlt
      have hlater : grid num den (n + 1) ≤ grid num den k := grid_mono (by omega)
      omega
    · intro hk
      exact Nat.le_trans (grid_mono hk) hn
  rw [hset, Set.encard_coe_eq_coe_finsetCard, Nat.card_Icc, Nat.add_sub_cancel]

theorem le_encard_passed (hn : grid num den n ≤ s) :
    (n : ℕ∞) ≤ {k | 1 ≤ k ∧ grid num den k ≤ s}.encard := by
  have hsub : (Finset.Icc 1 n : Set Nat) ⊆ {k | 1 ≤ k ∧ grid num den k ≤ s} := by
    intro k hk
    rw [Finset.mem_coe, Finset.mem_Icc] at hk
    exact ⟨hk.1, Nat.le_trans (grid_mono hk.2) hn⟩
  have hcard := Set.encard_le_encard hsub
  rwa [Set.encard_coe_eq_coe_finsetCard, Nat.card_Icc, Nat.add_sub_cancel] at hcard

/-- A clock that stands at tick `n` since power-on. -/
def fromPowerOn (num den n : Nat) : Clock := ⟨.zero, n, num, den⟩

theorem instantOf_fromPowerOn (num den n m : Nat) :
    (fromPowerOn num den n).instantOf m = .ok (.wrap (grid num den m)) := by
  have hlt : (fromPowerOn num den n).anchor.ticks + (fromPowerOn num den n).offset m <
      UInt64.size := by
    have hmod : (fromPowerOn num den n).offset m < UInt64.size := Nat.mod_lt _ (by decide)
    show 0 + _ < _
    omega
  rw [instantOf, dif_pos hlt]
  congr 1
  ext
  exact Nat.zero_add _

theorem Steady.next_exact {t : Instant} (h : Steady num den) (ht : t.Early)
    (hn : grid num den n ≤ t.ticks) : grid num den (n + 1) < UInt64.size - 1 := by
  have hnext := h.grid_succ_le n
  have hearly : t.ticks < 9223372036854775808 := ht
  have hsize : UInt32.size = 4294967296 := rfl
  have hword : UInt64.size = 18446744073709551616 := rfl
  omega

theorem Steady.lt_next {t : Instant} (h : Steady num den) (ht : t.Early)
    (hn : t.ticks = grid num den n) : t < .wrap (grid num den (n + 1)) := by
  have hexact := h.next_exact ht (Nat.le_of_eq hn.symm)
  rw [Instant.lt_iff_ticks ht.ne_asap (Instant.wrap_ne_asap hexact),
    Instant.wrap_ticks (by omega), hn]
  exact h.grid_lt n

/-- A clock that wants to be woken at its next tick stands at the last one that has passed. -/
theorem Steady.encard_passed {t : Instant} (h : Steady num den) (ht : t.Early)
    (hn : grid num den n ≤ t.ticks)
    (hahead : Instant.wrap (grid num den (n + 1)) ≠ .asap → t < .wrap (grid num den (n + 1))) :
    {k | 1 ≤ k ∧ grid num den k ≤ t.ticks}.encard = n := by
  have hexact := h.next_exact ht hn
  have hne := Instant.wrap_ne_asap hexact
  have hnext := hahead hne
  rw [Instant.lt_iff_ticks ht.ne_asap hne, Instant.wrap_ticks (by omega)] at hnext
  exact Clock.encard_passed hn hnext

theorem time_fromPowerOn (num den n : Nat) :
    (fromPowerOn num den n).time = .ok (.wrap (grid num den n)) := instantOf_fromPowerOn num den n n

theorem timeAfter_fromPowerOn {t : Instant} (h : (fromPowerOn num den n).timeAfter 1 = .ok t) :
    t = .wrap (grid num den (n + 1)) := by
  obtain ⟨count, hcount, ht⟩ := Attempt.bind_eq_ok.mp h
  rw [Word.eq_of_add_eq_ok hcount] at ht
  exact Except.ok.inj (ht.symm.trans (instantOf_fromPowerOn num den n (n + 1)))

theorem eq_of_forward_eq_ok (h : c.forward n = .ok c') : c' = { c with count := c.count + n } := by
  obtain ⟨count, hcount, hc⟩ := Attempt.bind_eq_ok.mp h
  cases hc
  rw [Word.eq_of_add_eq_ok hcount]

theorem forward_fromPowerOn (h : (fromPowerOn num den n).forward m = .ok c) :
    c = fromPowerOn num den (n + m) := eq_of_forward_eq_ok h

theorem setRatio_fromPowerOn {num' den' : Nat}
    (h : (fromPowerOn num den 0).setRatio num' den' = .ok c) :
    c = fromPowerOn num' den' 0 ∧ 0 < num' ∧ num' / den' ≤ mainFreq := by
  have hrebase : (fromPowerOn num den 0).rebase = .ok (fromPowerOn num den 0) := by
    rw [rebase, time_fromPowerOn, grid_zero]
    rfl
  rw [setRatio] at h
  split at h
  · cases h
  · rename_i hzero
    split at h
    · cases h
    · rename_i hhigh
      split at h
      · cases h
      · rw [hrebase] at h
        cases h
        exact ⟨rfl, by omega, Nat.le_of_not_lt hhigh⟩

theorem new_eq_ok {freq : Nat} (h : Clock.new .zero freq = .ok c) :
    c = fromPowerOn freq 1 0 ∧ Steady freq 1 := by
  have hset : (fromPowerOn 1 1 0).setRatio freq 1 = .ok c := h
  obtain ⟨hc, hpos, hle⟩ := setRatio_fromPowerOn hset
  rw [Nat.div_one] at hle
  exact ⟨hc, .of_freq hpos hle⟩

end Clock
end Timebase
