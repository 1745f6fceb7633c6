import Mathlib.Algebra.Order.Field.Rat
import Mathlib.Order.Monotone.Basic
import Timebase.Proofs.Drift
import Timebase.Proofs.Run

/-!
# Rates

A change of rate looks at a quotient that has been rounded down. With the bounds on both of its
terms that is enough: whatever is done with a clock, it never ticks faster than the master clock. So
its ticks fall on different instants, and 128 bits are enough to place them and to look them up.
-/

namespace Timebase.Clock

variable {c c' : Clock} {num den n d freq : Nat} {t : Instant}

/-- Master ticks from one tick to the next. -/
def exactPeriod (c : Clock) : ℚ := c.stepNum / c.stepDen

/-- The calls that change a clock. -/
inductive Call where
  | setFreq (freq : Nat)
  | setRatio (num den : Nat)
  | advance (t : Instant)
  | forward (n : Nat)
  | reset (t : Instant)

def Call.apply (c : Clock) : Call → Attempt Clock
  | .setFreq freq => c.setFreq freq
  | .setRatio num den => c.setRatio num den
  | .advance t => c.advance t
  | .forward n => c.forward n
  | .reset t => .ok (c.reset t)

def Call.run (call : Call) : Run Clock Unit := Run.update (call.apply ·)

/-- The clocks that are left behind by any calls, those that fail included. -/
inductive Reached : Clock → Prop where
  | made {c : Clock} {t : Instant} {freq : Nat} (h : new t freq = .ok c) : Reached c
  | fixed (freq : Nat) (h : 0 < freq ∧ freq ≤ mainFreq) (t : Instant) : Reached (fixed freq h t)
  | called {c : Clock} (call : Call) (h : Reached c) : Reached (call.run.after c)

/-- A clock of a rate that it can be given, with a count of 64 bits. -/
structure Regular (c : Clock) : Prop where
  rate : Accepted c.num c.den
  count_lt : c.count < UInt64.size

theorem regular_of_anchored (hrate : Accepted c.num c.den) (hcount : c.count = 0) : c.Regular := by
  refine ⟨hrate, ?_⟩
  rw [hcount]
  decide

theorem regular_of_setRatio (h : c.setRatio num den = .ok c') : c'.Regular := by
  obtain ⟨hrate, _, -, rfl⟩ := setRatio_eq_ok.mp h
  exact regular_of_anchored hrate rfl

theorem lt_of_lastTick_eq_ok (h : c.lastTick t = .ok n) : n < UInt64.size := by
  obtain ⟨_, -, h⟩ := Attempt.bind_eq_ok.mp h
  obtain ⟨_, -, h⟩ := Attempt.bind_eq_ok.mp h
  cases h
  exact Nat.mod_lt _ (by decide)

theorem Regular.call (h : c.Regular) {call : Call} (hcall : call.apply c = .ok c') :
    c'.Regular := by
  cases call with
  | setFreq freq => exact regular_of_setRatio hcall
  | setRatio num den => exact regular_of_setRatio hcall
  | advance t =>
    obtain ⟨last, hlast, rfl⟩ := eq_of_advance_eq_ok hcall
    exact ⟨h.rate, Nat.max_lt.mpr ⟨h.count_lt, lt_of_lastTick_eq_ok hlast⟩⟩
  | forward n =>
    obtain ⟨count, hcount, hc⟩ := Attempt.bind_eq_ok.mp hcall
    cases hc
    exact ⟨h.rate, Word.lt_of_add_eq_ok hcount⟩
  | reset t =>
    cases hcall
    exact regular_of_anchored h.rate rfl

theorem Call.after_cases (call : Call) (c : Clock) :
    call.run.after c = c ∨ call.apply c = .ok (call.run.after c) := by
  cases hcall : call.apply c with
  | ok c' =>
    have hdone : call.run c = .ok () c' := Run.update_eq_ok.mpr hcall
    rw [Run.after_of_ok hdone]
    exact Or.inr rfl
  | error cause =>
    have hleft : call.run c = .error (.fault cause) c := by
      rw [Call.run, Run.update, hcall]
    exact Or.inl (Run.after_of_error hleft)

theorem Reached.regular (h : Reached c) : c.Regular := by
  induction h with
  | made h => exact regular_of_setRatio h
  | fixed freq h t => exact regular_of_anchored (.fixed h t) rfl
  | @called c call _ ih =>
    rcases call.after_cases c with hleft | hcall
    · rw [hleft]
      exact ih
    · exact ih.call hcall

namespace Accepted

variable (h : Accepted c.num c.den)

include h

theorem one_le_exactPeriod : 1 ≤ c.exactPeriod := by
  have hpos : (0 : ℚ) < c.stepDen := Nat.cast_pos.mpr h.num_pos
  rw [exactPeriod, le_div_iff₀ hpos, one_mul]
  exact Nat.cast_le.mpr h.apart

theorem exactTicks_injective : Function.Injective c.exactTicks :=
  (strictMono_nat_of_lt_succ fun n => Nat.add_lt_add_left (h.grid_lt n) _).injective

theorem stepNum_lt : c.stepNum < 2 ^ 64 := by
  have hmain : mainFreq < 2 ^ 32 := by decide
  calc c.stepNum < 2 ^ 32 * 2 ^ 32 := Nat.mul_lt_mul'' hmain h.den_lt
    _ = 2 ^ 64 := by decide

theorem product_lt (hn : n < 2 ^ 64) : n * c.stepNum < 2 ^ 128 := by
  calc n * c.stepNum < 2 ^ 64 * 2 ^ 64 := Nat.mul_lt_mul'' hn h.stepNum_lt
    _ = 2 ^ 128 := by decide

theorem scaled_lt (hd : d < 2 ^ 64) : (d + 1) * c.stepDen < 2 ^ 128 := by
  have hnum : c.stepDen < 2 ^ 32 := h.num_lt
  calc (d + 1) * c.stepDen ≤ 2 ^ 64 * c.stepDen := Nat.mul_le_mul_right _ hd
    _ < 2 ^ 64 * 2 ^ 64 := by omega

theorem lookup_lt (hd : d < 2 ^ 64) : ((d + 1) * c.stepDen - 1) / c.stepNum < 2 ^ 64 :=
  Nat.lt_of_le_of_lt (h.last_le d) hd

theorem lastTick_eq (hn : c.lastTick t = .ok n) :
    n = ((t.ticks - c.anchor.ticks + 1) * c.stepDen - 1) / c.stepNum := by
  have hlookup := h.lookup_lt (Nat.lt_of_le_of_lt (Nat.sub_le _ c.anchor.ticks) t.ticks_lt)
  obtain ⟨_, -, hn⟩ := Attempt.bind_eq_ok.mp hn
  obtain ⟨d, hd, hn⟩ := Attempt.bind_eq_ok.mp hn
  cases hn
  rw [Word.subtract] at hd
  split at hd
  · cases hd
    exact Nat.mod_eq_of_lt hlookup
  · cases hd

end Accepted

/-- A clock is no faster than the master clock, which leaves its ticks apart and bounds all that is
computed of them. -/
structure NoFaster (c : Clock) : Prop where
  period : 1 ≤ c.exactPeriod
  apart : Function.Injective c.exactTicks
  product : ∀ n < 2 ^ 64, n * c.stepNum < 2 ^ 128
  scaled : ∀ d < 2 ^ 64, (d + 1) * c.stepDen < 2 ^ 128
  lookup : ∀ d < 2 ^ 64, ((d + 1) * c.stepDen - 1) / c.stepNum < 2 ^ 64
  lookedUp : ∀ t n, c.lastTick t = .ok n →
    n = ((t.ticks - c.anchor.ticks + 1) * c.stepDen - 1) / c.stepNum

theorem Regular.noFaster (h : c.Regular) : c.NoFaster where
  period := h.rate.one_le_exactPeriod
  apart := h.rate.exactTicks_injective
  product := fun _ hn => h.rate.product_lt hn
  scaled := fun _ hd => h.rate.scaled_lt hd
  lookup := fun _ hd => h.rate.lookup_lt hd
  lookedUp := fun _ _ hn => h.rate.lastTick_eq hn

/-- A change of rate as it is made in place, one field after the other. -/
def setRatioInPlace (num den : Nat) : Run Clock Unit :=
  if num = 0 ∨ den = 0 then Run.refuse (.time .zeroFrequency)
  else if mainFreq < num / den then Run.refuse (.time (.frequencyTooHigh (num / den)))
  else if UInt32.size ≤ num ∨ UInt32.size ≤ den then Run.refuse (.time .overflow)
  else do
    let now ← Run.read time
    modify fun c => { c with anchor := now }
    modify fun c => { c with count := 0 }
    modify fun c => { c with den }
    modify fun c => { c with num }

/-- All that can go wrong goes wrong before the first field is written. -/
theorem setRatioInPlace_eq (num den : Nat) (c : Clock) :
    setRatioInPlace num den c = Run.update (·.setRatio num den) c := by
  rw [setRatioInPlace, Run.update, setRatio]
  split
  · rfl
  · split
    · rfl
    · split
      · rfl
      · cases htime : c.time with
        | ok now =>
          rw [Run.bind_of_ok (Run.read_eq_ok.mpr ⟨htime, rfl⟩), rebase, htime]
          rfl
        | error cause =>
          rw [Run.bind_of_error (Run.read_of_error htime), rebase, htime]
          rfl

theorem time_reset (c : Clock) (t : Instant) : (c.reset t).time = .ok t := by
  have hexact : (c.reset t).exactTicks 0 = t.ticks := by
    rw [exactTicks, grid_zero]
    rfl
  obtain ⟨now, hnow, hticks⟩ := ticks_of_instantOf (c := c.reset t) (m := 0) (by
    rw [hexact]
    exact t.ticks_lt)
  have hsame : now = t := Instant.ext (hticks.trans hexact)
  rw [hsame] at hnow
  exact hnow

/-- What a change of rate comes to: it is made exactly for the rates that are accepted, none of
them faster than the master clock; it leaves the time as it is, and everything where it fails. -/
structure ChangesRate (c : Clock) (num den : Nat) : Prop where
  in_place : setRatioInPlace num den c = Run.update (·.setRatio num den) c
  made_iff : (∃ c', c.setRatio num den = .ok c') ↔ Accepted num den ∧ ∃ now, c.time = .ok now
  no_faster : (∃ c', c.setRatio num den = .ok c') → num ≤ mainFreq * den
  same_time : ∀ c', setRatioInPlace num den c = .ok () c' →
    c'.time = c.time ∧ c'.exactPeriod = mainFreq * den / num
  unchanged : ∀ halt c', setRatioInPlace num den c = .error halt c' → c' = c

theorem changesRate (c : Clock) (num den : Nat) : c.ChangesRate num den := by
  have hplace := setRatioInPlace_eq num den c
  refine ⟨hplace, ?_, ?_, ?_, ?_⟩
  · constructor
    · rintro ⟨c', h⟩
      obtain ⟨hrate, now, hnow, -⟩ := setRatio_eq_ok.mp h
      exact ⟨hrate, now, hnow⟩
    · rintro ⟨hrate, now, hnow⟩
      exact ⟨_, setRatio_eq_ok.mpr ⟨hrate, now, hnow, rfl⟩⟩
  · rintro ⟨c', h⟩
    exact (setRatio_eq_ok.mp h).1.apart
  · intro c' h
    rw [hplace] at h
    obtain ⟨-, now, hnow, rfl⟩ := setRatio_eq_ok.mp (Run.update_eq_ok.mp h)
    refine ⟨?_, ?_⟩
    · rw [hnow]
      exact time_reset ⟨now, 0, num, den⟩ now
    · rw [exactPeriod, stepNum, stepDen, Nat.cast_mul]
  · intro halt c' h
    rw [hplace, Run.update] at h
    split at h
    · cases h
    · cases h
      rfl

theorem rates_never_exceed_master (h : Reached c) :
    c.NoFaster ∧ (∀ num den, c.ChangesRate num den) ∧
      (∀ freq c', c.setFreq freq = .ok c' → freq ≤ mainFreq) ∧
      ∀ t freq c', new t freq = .ok c' → freq ≤ mainFreq := by
  have hfreq {c c' : Clock} {freq : Nat} (h : c.setRatio freq 1 = .ok c') : freq ≤ mainFreq :=
    Nat.le_trans (setRatio_eq_ok.mp h).1.apart (Nat.le_of_eq (Nat.mul_one _))
  exact ⟨h.regular.noFaster, changesRate c, fun _ _ => hfreq, fun _ _ _ => hfreq⟩

/-- A clock that has been given a rate, has moved on and has been refused another rate, by one. -/
theorem rates_never_exceed_master_by_one : ∃ c : Clock, Reached c ∧ c.NoFaster ∧
    c = ⟨.zero, 3, 4294967295, 2⟩ ∧ (c.setRatio 3436363201 1).toOption = none := by
  have hmade : new .zero 1000 = .ok ⟨.zero, 0, 1000, 1⟩ := rfl
  have hmoved : Reached ⟨.zero, 3, 4294967295, 2⟩ :=
    ((Reached.made hmade).called (.setRatio 4294967295 2)).called (.forward 3)
  have hcalled : Reached ⟨.zero, 3, 4294967295, 2⟩ := hmoved.called (.setRatio 3436363201 1)
  exact ⟨_, hcalled, (rates_never_exceed_master hcalled).1, rfl, rfl⟩

end Timebase.Clock
