import Mathlib.Algebra.Order.Floor.Semifield
import Mathlib.Data.Rat.Floor
import Timebase.Proofs.Clock

/-!
# Clocks do not drift

The instant of a tick is computed from its number and then rounded down, and the number of the last
tick before an instant is computed back from it. The two are exact inverses of each other for every
rate that a clock can have, so it makes no difference in how many steps a clock gets to a tick.
-/

namespace Timebase.Clock

variable {c c' : Clock} {num den n m d freq : Nat} {t : Instant}

theorem grid_eq_floor (num den n : Nat) :
    grid num den n = ⌊(n : ℚ) * (mainFreq * den / num)⌋₊ := by
  rw [grid, ← mul_div_assoc, ← Nat.cast_mul, ← Nat.cast_mul, Nat.floor_div_eq_div]

/-- The rates that a clock can be given. -/
structure Accepted (num den : Nat) : Prop where
  num_pos : 0 < num
  den_pos : 0 < den
  slow : num / den ≤ mainFreq
  num_lt : num < UInt32.size
  den_lt : den < UInt32.size

theorem setRatio_eq_ok :
    c.setRatio num den = .ok c' ↔
      Accepted num den ∧ ∃ t, c.time = .ok t ∧ c' = ⟨t, 0, num, den⟩ := by
  rw [setRatio]
  constructor
  · intro h
    split at h
    · cases h
    · rename_i hzero
      split at h
      · cases h
      · rename_i hhigh
        split at h
        · cases h
        · rename_i hlarge
          obtain ⟨c₁, hrebase, h⟩ := Attempt.bind_eq_ok.mp h
          obtain ⟨t, ht, hreset⟩ := Attempt.bind_eq_ok.mp hrebase
          cases hreset
          cases h
          exact ⟨⟨by omega, by omega, Nat.le_of_not_lt hhigh, by omega, by omega⟩, t, ht, rfl⟩
  · rintro ⟨h, t, ht, rfl⟩
    have hpos := h.num_pos
    have hden := h.den_pos
    have hnum := h.num_lt
    have hlt := h.den_lt
    rw [if_neg (by omega), if_neg (Nat.not_lt.mpr h.slow), if_neg (by omega), rebase, ht]
    rfl

theorem Accepted.fixed (h : 0 < freq ∧ freq ≤ mainFreq) (t : Instant) :
    Accepted (fixed freq h t).num (fixed freq h t).den := by
  have hmain : mainFreq < UInt32.size := by decide
  have hone : 1 < UInt32.size := by decide
  exact ⟨h.1, Nat.one_pos, (Nat.div_one freq).trans_le h.2, Nat.lt_of_le_of_lt h.2 hmain, hone⟩

/-- A rate no higher than that of the master clock in whole Hz is no higher than it at all: a
fraction is missing only where the rate is far below. -/
theorem Accepted.apart (h : Accepted num den) : num ≤ mainFreq * den := by
  have hslow := h.slow
  have hnum := h.num_lt
  have hsize : UInt32.size = 4294967296 := rfl
  have hmain : mainFreq = 3436363200 := rfl
  by_cases hden : den = 1
  · rw [hden, Nat.div_one] at hslow
    rw [hden, Nat.mul_one]
    exact hslow
  · have hpos := h.den_pos
    have hdouble : mainFreq * 2 ≤ mainFreq * den := Nat.mul_le_mul_left _ (by omega)
    omega

namespace Accepted

variable (h : Accepted num den)

include h

theorem grid_lt (n : Nat) : grid num den n < grid num den (n + 1) :=
  grid_lt_of_apart h.num_pos h.apart n

theorem le_grid (n : Nat) : n ≤ grid num den n := le_grid_of_apart h.num_pos h.apart n

/-- Tick `m` is among those up to a distance exactly if it is no later. -/
theorem le_last_iff : m ≤ ((d + 1) * num - 1) / (mainFreq * den) ↔ grid num den m ≤ d := by
  have hstep : 0 < mainFreq * den := Nat.mul_pos (by decide) h.den_pos
  have hpos : 0 < (d + 1) * num := Nat.mul_pos d.succ_pos h.num_pos
  rw [Nat.le_div_iff_mul_le hstep, Nat.le_sub_one_iff_lt hpos,
    ← Nat.div_lt_iff_lt_mul h.num_pos, Nat.lt_succ_iff, grid]

theorem last_grid (m : Nat) : ((grid num den m + 1) * num - 1) / (mainFreq * den) = m := by
  apply Nat.le_antisymm
  · by_contra hlt
    have hnext := h.le_last_iff.mp (Nat.lt_of_not_le hlt)
    exact absurd (h.grid_lt m) (Nat.not_lt.mpr hnext)
  · exact h.le_last_iff.mpr (Nat.le_refl _)

theorem last_le (d : Nat) : ((d + 1) * num - 1) / (mainFreq * den) ≤ d :=
  Nat.le_trans (h.le_grid _) (h.le_last_iff.mp (Nat.le_refl _))

end Accepted

/-- A clock that has moved to another tick. -/
def withCount (c : Clock) (count : Nat) : Clock := { c with count }

/-- The exact instant of a tick, in master ticks since power-on. -/
def exactTicks (c : Clock) (n : Nat) : Nat := c.anchor.ticks + grid c.num c.den n

theorem exactTicks_mono (c : Clock) (h : n ≤ m) : c.exactTicks n ≤ c.exactTicks m :=
  Nat.add_le_add_left (grid_mono h) _

theorem instantOf_of_lt (hm : c.exactTicks m < UInt64.size) :
    c.instantOf m = .ok (.wrap (c.exactTicks m)) := by
  have hgrid : grid c.num c.den m < UInt64.size := Nat.lt_of_le_of_lt (Nat.le_add_left _ _) hm
  have hoffset : c.offset m = grid c.num c.den m := Nat.mod_eq_of_lt hgrid
  have hfits : c.anchor.ticks + c.offset m < UInt64.size := by
    rw [hoffset]
    exact hm
  rw [instantOf, dif_pos hfits]
  congr 1
  ext
  rw [Instant.wrap_ticks hm]
  show c.anchor.ticks + c.offset m = _
  rw [hoffset]
  rfl

theorem ticks_of_instantOf (hm : c.exactTicks m < UInt64.size) :
    ∃ t, c.instantOf m = .ok t ∧ t.ticks = c.exactTicks m :=
  ⟨_, instantOf_of_lt hm, Instant.wrap_ticks hm⟩

theorem advance_of_lastTick (ht : t ≠ .asap) (h : c.exactTicks c.count ≤ t.ticks)
    (hle : c.count ≤ m) (hlast : c.lastTick t = .ok m) : c.advance t = .ok (c.withCount m) := by
  have hexact := Nat.lt_of_le_of_lt h t.ticks_lt
  have htime : c.time = .ok (.wrap (c.exactTicks c.count)) := instantOf_of_lt hexact
  have hnow : Instant.wrap (c.exactTicks c.count) ≤ t := by
    apply Instant.le_of_ticks_le ht
    rw [Instant.wrap_ticks hexact]
    exact h
  rw [advance, htime]
  show (do Attempt.demand (decide (Instant.wrap (c.exactTicks c.count) ≤ t)) _; _) = _
  rw [decide_eq_true hnow, hlast]
  show Except.ok (c.withCount (max c.count m)) = _
  rw [Nat.max_eq_right hle]

section

variable (hrate : Accepted c.num c.den) (hanchor : c.anchor ≠ .asap)

include hrate

theorem add_of_lt (hm : c.exactTicks (c.count + n) < UInt64.size) :
    Word.add c.count n = .ok (c.count + n) := by
  have hcount := hrate.le_grid (c.count + n)
  rw [exactTicks] at hm
  exact if_pos (by omega)

theorem forward_of_lt (hm : c.exactTicks (c.count + n) < UInt64.size) :
    c.forward n = .ok (c.withCount (c.count + n)) := by
  rw [forward, add_of_lt hrate hm]
  rfl

theorem timeAfter_of_lt (hm : c.exactTicks (c.count + n) < UInt64.size) :
    c.timeAfter n = .ok (.wrap (c.exactTicks (c.count + n))) := by
  rw [timeAfter, add_of_lt hrate hm]
  exact instantOf_of_lt hm

include hanchor

/-- The last tick up to an instant is told exactly: there are no more than 64 bits of them. -/
theorem lastTick_of_le (ht : t ≠ .asap) (hle : c.anchor.ticks ≤ t.ticks) :
    c.lastTick t =
      .ok (((t.ticks - c.anchor.ticks + 1) * c.num - 1) / (mainFreq * c.den)) := by
  have hkept : c.anchor ≤ t := by
    rw [← Instant.not_lt, Instant.lt_iff_ticks ht hanchor]
    exact Nat.not_lt.mpr hle
  have hsub : Word.subtract t.ticks c.anchor.ticks = .ok (t.ticks - c.anchor.ticks) := if_pos hle
  have hlast := hrate.last_le (t.ticks - c.anchor.ticks)
  have hlt := t.ticks_lt
  rw [lastTick, decide_eq_true hkept, hsub]
  show Except.ok (((t.ticks - c.anchor.ticks + 1) * c.num - 1) / (mainFreq * c.den) %
    UInt64.size) = _
  rw [Nat.mod_eq_of_lt (by omega)]

theorem lastTick_exact (hm : c.exactTicks m < UInt64.size - 1) :
    c.lastTick (.wrap (c.exactTicks m)) = .ok m := by
  have hticks := Instant.wrap_ticks (Nat.lt_of_lt_of_le hm (Nat.sub_le _ _))
  have hle : c.anchor.ticks ≤ (Instant.wrap (c.exactTicks m)).ticks := by
    rw [hticks]
    exact Nat.le_add_right _ _
  rw [lastTick_of_le hrate hanchor (Instant.wrap_ne_asap hm) hle, hticks, exactTicks,
    Nat.add_sub_cancel_left, hrate.last_grid]

theorem advance_exact (hle : c.count ≤ m) (hm : c.exactTicks m < UInt64.size - 1) :
    c.advance (.wrap (c.exactTicks m)) = .ok (c.withCount m) := by
  refine advance_of_lastTick (Instant.wrap_ne_asap hm) ?_ hle (lastTick_exact hrate hanchor hm)
  rw [Instant.wrap_ticks (by omega)]
  exact exactTicks_mono c hle

theorem step_exact (hm : c.exactTicks (c.count + 1) < UInt64.size - 1) :
    c.step = .ok (c.withCount (c.count + 1)) := by
  rw [step, timeAfter_of_lt hrate (by omega)]
  exact advance_exact hrate hanchor (Nat.le_add_right _ _) hm

end

/-- Tick by tick a clock gets where it is moved at once. -/
theorem walk_exact (hrate : Accepted c.num c.den) (hanchor : c.anchor ≠ .asap)
    (hm : c.exactTicks (c.count + n) < UInt64.size - 1) :
    walk n c = .ok () (c.withCount (c.count + n)) := by
  induction n generalizing c with
  | zero => rfl
  | succ n ih =>
    have hnext := exactTicks_mono c (show c.count + 1 ≤ c.count + (n + 1) by omega)
    have hstep : Run.update step c = .ok () (c.withCount (c.count + 1)) :=
      Run.update_eq_ok.mpr (step_exact hrate hanchor (by omega))
    have hshift : c.count + (n + 1) = (c.withCount (c.count + 1)).count + n := by
      show c.count + (n + 1) = c.count + 1 + n
      omega
    rw [hshift] at hm
    have hrest := ih (c := c.withCount (c.count + 1)) hrate hanchor hm
    rw [walk, Run.iterate, hstep, hshift]
    exact hrest

/-- A clock that has been moved on in any way since it was anchored. -/
inductive Moved (c : Clock) : Clock → Prop where
  | anchored : Moved c c
  | advanced {c₁ c₂ : Clock} {t : Instant} (h : Moved c c₁) (step : c₁.advance t = .ok c₂) :
      Moved c c₂
  | forwarded {c₁ c₂ : Clock} {n : Nat} (h : Moved c c₁) (step : c₁.forward n = .ok c₂) :
      Moved c c₂

theorem eq_of_advance_eq_ok (h : c.advance t = .ok c') :
    ∃ last, c.lastTick t = .ok last ∧ c' = c.withCount (max c.count last) := by
  obtain ⟨_, -, h⟩ := Attempt.bind_eq_ok.mp h
  obtain ⟨_, -, h⟩ := Attempt.bind_eq_ok.mp h
  obtain ⟨last, hlast, h⟩ := Attempt.bind_eq_ok.mp h
  cases h
  exact ⟨last, hlast, rfl⟩

theorem Moved.withCount (h : Moved c c') : c' = c.withCount c'.count := by
  induction h with
  | anchored => rfl
  | advanced _ step ih =>
    obtain ⟨_, -, hc⟩ := eq_of_advance_eq_ok step
    rw [hc, ih]
    rfl
  | forwarded _ step ih =>
    rw [eq_of_forward_eq_ok step, ih]
    rfl

/-- A clock keeps to its exact ticks: it gets `n` ticks on in whatever way it is moved there, and
its time is always the exact instant of its tick. -/
structure KeepsTime (c : Clock) (n : Nat) : Prop where
  walked : walk n c = .ok () (c.withCount (c.count + n))
  forwarded : c.forward n = .ok (c.withCount (c.count + n))
  advanced : (do c.advance (← c.timeAfter n)) = .ok (c.withCount (c.count + n))
  moved : ∀ c', Moved c c' → c' = c.withCount c'.count ∧
    (c.exactTicks c'.count < UInt64.size → ∃ t, c'.time = .ok t ∧
      t.ticks = c.anchor.ticks + ⌊(c'.count : ℚ) * (mainFreq * c.den / c.num)⌋₊)

theorem clocks_do_not_drift (hrate : Accepted c.num c.den) (hanchor : c.anchor ≠ .asap)
    (hn : c.exactTicks (c.count + n) < UInt64.size - 1) : KeepsTime c n where
  walked := walk_exact hrate hanchor hn
  forwarded := forward_of_lt hrate (by omega)
  advanced := by
    rw [timeAfter_of_lt hrate (by omega)]
    exact advance_exact hrate hanchor (Nat.le_add_right _ _) hn
  moved := by
    intro c' h
    have hc := h.withCount
    refine ⟨hc, ?_⟩
    intro hfits
    obtain ⟨t, ht, hticks⟩ := ticks_of_instantOf hfits
    refine ⟨t, ?_, ?_⟩
    · rw [hc]
      exact ht
    · rw [hticks, ← grid_eq_floor]
      rfl

/-- A second of a clock whose ticks are not whole master ticks apart. -/
theorem clocks_do_not_drift_96000 :
    KeepsTime (fixed 96000 (by decide) .zero) 96000 ∧
      (fixed 96000 (by decide) .zero).exactTicks 96000 = mainFreq :=
  ⟨clocks_do_not_drift (.fixed (by decide) .zero) (by decide) (by decide), by decide⟩

end Timebase.Clock
