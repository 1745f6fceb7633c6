import Timebase.Proofs.Rates
import Timebase.Proofs.Time.Arithmetic

/-!
# The instants that a clock tells

A tick that is no more than 64 bits of master ticks away from the anchor is told exactly or not at
all. What is further away is cut off to 64 bits, so that it may be told much too early. In the same
way a period is told exactly if it fits into a span, and then neighbouring ticks are that far apart,
or one master tick more.
-/

namespace Timebase.Clock

variable {c c' : Clock} {n m passed : Nat} {t t' since : Instant}

/-- A clock by what has been done with it: the instant at which it was anchored last, and the ticks
that it has counted since. -/
inductive Anchored : Instant → Nat → Clock → Prop where
  | made {t : Instant} {freq : Nat} {c : Clock} (h : new t freq = .ok c) : Anchored t 0 c
  | fixed (freq : Nat) (h : 0 < freq ∧ freq ≤ mainFreq) (t : Instant) :
      Anchored t 0 (fixed freq h t)
  | rated {since now : Instant} {passed num den : Nat} {c c' : Clock} (h : Anchored since passed c)
      (hnow : c.time = .ok now) (step : c.setRatio num den = .ok c') : Anchored now 0 c'
  | advanced {since t : Instant} {passed n : Nat} {c c' : Clock} (h : Anchored since passed c)
      (hticks : c.ticksTill t = .ok n) (step : c.advance t = .ok c') :
      Anchored since (passed + n) c'
  | forwarded {since : Instant} {passed n : Nat} {c c' : Clock} (h : Anchored since passed c)
      (step : c.forward n = .ok c') : Anchored since (passed + n) c'
  | reset {since : Instant} {passed : Nat} {c : Clock} (h : Anchored since passed c)
      (t : Instant) : Anchored t 0 (c.reset t)

theorem ticksTill_of_advance (h : c.advance t = .ok c') :
    ∃ n, c.ticksTill t = .ok n ∧ c' = c.withCount (c.count + n) := by
  obtain ⟨last, hlast, rfl⟩ := eq_of_advance_eq_ok h
  obtain ⟨_, hkept, -⟩ := Attempt.bind_eq_ok.mp hlast
  have hle : c.anchor ≤ t := of_decide_eq_true (Attempt.demand_eq_ok.mp hkept)
  refine ⟨last - c.count, ?_, ?_⟩
  · rw [ticksTill, if_neg (Instant.not_lt.mpr hle), hlast]
    rfl
  · rw [show max c.count last = c.count + (last - c.count) by omega]

theorem anchor_of_setRatio {num den : Nat} {now : Instant} (hnow : c.time = .ok now)
    (h : c.setRatio num den = .ok c') : c'.anchor = now ∧ c'.count = 0 := by
  obtain ⟨-, now', hnow', rfl⟩ := setRatio_eq_ok.mp h
  exact ⟨Except.ok.inj (hnow'.symm.trans hnow), rfl⟩

theorem Anchored.eq (h : Anchored since passed c) : c.anchor = since ∧ c.count = passed := by
  induction h with
  | @made t freq c h => exact anchor_of_setRatio (time_reset ⟨t, 0, 1, 1⟩ t) h
  | fixed freq h t => exact ⟨rfl, rfl⟩
  | rated _ hnow step _ => exact anchor_of_setRatio hnow step
  | advanced _ hticks step ih =>
    obtain ⟨_, hn, rfl⟩ := ticksTill_of_advance step
    cases Except.ok.inj (hn.symm.trans hticks)
    exact ⟨ih.1, congrArg (· + _) ih.2⟩
  | forwarded _ step ih =>
    rw [eq_of_forward_eq_ok step]
    exact ⟨ih.1, congrArg (· + _) ih.2⟩
  | reset _ t _ => exact ⟨rfl, rfl⟩

theorem Anchored.call (h : Anchored since passed c) {call : Call} (hcall : call.apply c = .ok c') :
    ∃ since passed, Anchored since passed c' := by
  have hrated {num den : Nat} (step : c.setRatio num den = .ok c') :
      ∃ since passed, Anchored since passed c' := by
    obtain ⟨-, now, hnow, -⟩ := setRatio_eq_ok.mp step
    exact ⟨_, _, .rated h hnow step⟩
  cases call with
  | setFreq freq => exact hrated hcall
  | setRatio num den => exact hrated hcall
  | advance t =>
    obtain ⟨n, hn, -⟩ := ticksTill_of_advance hcall
    exact ⟨_, _, .advanced h hn hcall⟩
  | forward n => exact ⟨_, _, .forwarded h hcall⟩
  | reset t =>
    cases hcall
    exact ⟨_, _, .reset h t⟩

/-- Whatever is done with a clock, it was anchored some time. -/
theorem Reached.anchored (h : Reached c) : ∃ since passed, Anchored since passed c := by
  induction h with
  | made h => exact ⟨_, _, .made h⟩
  | fixed freq h t => exact ⟨_, _, .fixed freq h t⟩
  | @called c call _ ih =>
    obtain ⟨since, passed, h⟩ := ih
    rcases call.after_cases c with hleft | hcall
    · rw [hleft]
      exact ⟨since, passed, h⟩
    · exact h.call hcall

/-- Exact distance from the anchor to a tick. -/
def distance (c : Clock) (n : Nat) : Nat := ⌊(n : ℚ) * c.exactPeriod⌋₊

theorem distance_eq (c : Clock) (n : Nat) : c.distance n = grid c.num c.den n := by
  rw [grid_eq_floor, distance, exactPeriod, stepNum, stepDen, Nat.cast_mul]

theorem exactTicks_eq (c : Clock) (n : Nat) : c.exactTicks n = c.anchor.ticks + c.distance n := by
  rw [exactTicks, distance_eq]

theorem ticks_of_timeAfter_eq_ok (h : c.timeAfter n = .ok t) :
    t.ticks = c.anchor.ticks + c.distance (c.count + n) % 2 ^ 64 := by
  obtain ⟨count, hcount, h⟩ := Attempt.bind_eq_ok.mp h
  rw [Word.eq_of_add_eq_ok hcount, instantOf] at h
  split at h
  · cases h
    rw [distance_eq]
    rfl
  · cases h

theorem timeAfter_eq_error {cause : Fault} (h : c.timeAfter n = .error cause) :
    cause = .violated (.overflow .add) := by
  rw [timeAfter, Word.add] at h
  split at h
  · change c.instantOf (c.count + n) = _ at h
    rw [instantOf] at h
    split at h
    · cases h
    · cases h
      rfl
  · cases h
    rfl

theorem time_eq_timeAfter (h : c.count < UInt64.size) : c.time = c.timeAfter 0 := by
  have hcount : Word.add c.count 0 = .ok c.count := if_pos h
  rw [timeAfter, hcount]
  rfl

theorem anchor_le_of_timeAfter (h : c.timeAfter n = .ok t) (ht : t ≠ .asap) : c.anchor ≤ t := by
  apply Instant.le_of_ticks_le ht
  rw [ticks_of_timeAfter_eq_ok h]
  exact Nat.le_add_right _ _

theorem timeAfter_of_not_fits (hnear : c.distance (c.count + n) < 2 ^ 64)
    (hfar : 2 ^ 64 ≤ c.anchor.ticks + c.distance (c.count + n)) :
    c.timeAfter n = Attempt.violate (.overflow .add) := by
  cases htime : c.timeAfter n with
  | error cause =>
    rw [timeAfter_eq_error htime]
    rfl
  | ok t =>
    have hticks := ticks_of_timeAfter_eq_ok htime
    have hlt : t.ticks < 2 ^ 64 := t.ticks_lt
    rw [Nat.mod_eq_of_lt hnear] at hticks
    omega

namespace Accepted

variable (h : Accepted c.num c.den)

include h

theorem timeAfter_of_fits (hfits : c.exactTicks (c.count + n) < 2 ^ 64) :
    ∃ t, c.timeAfter n = .ok t ∧ t.ticks = c.exactTicks (c.count + n) :=
  ⟨_, timeAfter_of_lt h hfits, Instant.wrap_ticks hfits⟩

theorem timeAfter_mono (hle : n ≤ m) (hnear : c.distance (c.count + m) < 2 ^ 64)
    (ht' : c.timeAfter m = .ok t') (hne : t' ≠ .asap) :
    ∃ t, c.timeAfter n = .ok t ∧ t ≤ t' := by
  have hticks' := ticks_of_timeAfter_eq_ok ht'
  rw [Nat.mod_eq_of_lt hnear, ← exactTicks_eq] at hticks'
  have hlt : t'.ticks < 2 ^ 64 := t'.ticks_lt
  have hmono := c.exactTicks_mono (Nat.add_le_add_left hle c.count)
  obtain ⟨t, ht, hticks⟩ := h.timeAfter_of_fits (n := n) (by omega)
  exact ⟨t, ht, Instant.le_of_ticks_le hne (by omega)⟩

end Accepted

/-- What a clock tells of its ticks: the exact instant or nothing, as long as the distance from its
last anchoring fits into 64 bits. -/
structure TellsInstants (c : Clock) (since : Instant) (passed : Nat) : Prop where
  now : c.time = c.timeAfter 0
  exact : ∀ n, c.distance (passed + n) < 2 ^ 64 →
    (∃ t, c.timeAfter n = .ok t ∧ t.ticks = since.ticks + c.distance (passed + n)) ∨
      c.timeAfter n = Attempt.violate (.overflow .add) ∧
        2 ^ 64 ≤ since.ticks + c.distance (passed + n)
  cut : ∀ n t, c.timeAfter n = .ok t → t.ticks = since.ticks + c.distance (passed + n) % 2 ^ 64
  not_before : ∀ n t, c.timeAfter n = .ok t → t ≠ .asap → since ≤ t
  mono : ∀ n m t', n ≤ m → c.distance (passed + m) < 2 ^ 64 → c.timeAfter m = .ok t' →
    t' ≠ .asap → ∃ t, c.timeAfter n = .ok t ∧ t ≤ t'

theorem Regular.tellsInstants (h : c.Regular) : c.TellsInstants c.anchor c.count where
  now := time_eq_timeAfter h.count_lt
  exact := by
    intro n hnear
    by_cases hfits : c.anchor.ticks + c.distance (c.count + n) < 2 ^ 64
    · rw [← exactTicks_eq] at hfits ⊢
      exact Or.inl (h.rate.timeAfter_of_fits hfits)
    · have hfar := Nat.le_of_not_lt hfits
      exact Or.inr ⟨timeAfter_of_not_fits hnear hfar, hfar⟩
  cut := fun _ _ => ticks_of_timeAfter_eq_ok
  not_before := fun _ _ => anchor_le_of_timeAfter
  mono := fun _ _ _ => h.rate.timeAfter_mono

theorem instants_are_exact_or_not_told (h : Reached c) :
    (∃ since passed, Anchored since passed c) ∧
      ∀ since passed, Anchored since passed c → c.TellsInstants since passed := by
  refine ⟨h.anchored, ?_⟩
  intro since passed hanchored
  obtain ⟨rfl, rfl⟩ := hanchored.eq
  exact h.regular.tellsInstants

/-- A second of a clock whose rate has been changed after its first tick. -/
theorem instants_are_exact_or_not_told_changed : ∃ c : Clock, Reached c ∧
    c.TellsInstants ⟨3436363, by decide⟩ 0 ∧
      ∃ t, c.timeAfter 96000 = .ok t ∧ t.ticks = 3436363 + mainFreq := by
  have hmade : new .zero 1000 = .ok ⟨.zero, 0, 1000, 1⟩ := rfl
  have hcalled : Reached ⟨⟨3436363, by decide⟩, 0, 96000, 1⟩ :=
    ((Reached.made hmade).called (.forward 1)).called (.setFreq 96000)
  have hfirst : Anchored .zero (0 + 1) ⟨.zero, 1, 1000, 1⟩ := .forwarded (.made hmade) rfl
  have htime : (⟨.zero, 1, 1000, 1⟩ : Clock).time = .ok ⟨3436363, by decide⟩ := by decide
  have hrated : (⟨.zero, 1, 1000, 1⟩ : Clock).setRatio 96000 1 =
      .ok ⟨⟨3436363, by decide⟩, 0, 96000, 1⟩ := by decide
  have hanchored := hfirst.rated htime hrated
  exact ⟨_, hcalled, (instants_are_exact_or_not_told hcalled).2 _ _ hanchored, _, rfl, rfl⟩

/-- At one Hz the distance to tick 5368100809 takes more than 64 bits. It is cut off, so that this
tick is told before the one in front of it. And an exact count may be that of a sentinel. -/
theorem instant_told_too_early : ∃ (c : Clock) (t t' : Instant),
    new .zero 1 = .ok c ∧ c.timeAfter 5368100808 = .ok t ∧ c.timeAfter 5368100809 = .ok t' ∧
      c.anchor.ticks + c.distance 5368100809 = 18446744073937828800 ∧ t'.ticks = 228277184 ∧
      t' < t ∧
      (fixed mainFreq (by decide) ⟨18446744073709551613, by decide⟩).timeAfter 2 = .ok .asap := by
  refine ⟨⟨.zero, 0, 1, 1⟩, ⟨18446744070501465600, by decide⟩, ⟨228277184, by decide⟩, rfl,
    by decide, by decide, ?_, rfl, by decide, by decide⟩
  rw [distance_eq]
  decide

/-- Ticks next to each other are that many master ticks apart, or one more where the rate is no
divisor of the master clock's. -/
def Spaced (c : Clock) (gap : Int) : Prop :=
  ∀ n, c.exactTicks (c.count + (n + 1)) < 2 ^ 64 → ∃ t t',
    c.timeAfter n = .ok t ∧ c.timeAfter (n + 1) = .ok t' ∧
      ((t'.ticks : Int) = t.ticks + gap ∨ (t'.ticks : Int) = t.ticks + gap + 1) ∧
      (c.num ∣ mainFreq * c.den → (t'.ticks : Int) = t.ticks + gap)

theorem floor_exactPeriod (c : Clock) : ⌊c.exactPeriod⌋₊ = c.stepNum / c.stepDen := by
  rw [exactPeriod, Nat.floor_div_eq_div]

theorem grid_succ_of_dvd {num den : Nat} (h : num ∣ mainFreq * den) (n : Nat) :
    grid num den (n + 1) = grid num den n + mainFreq * den / num := by
  rw [grid, grid, Nat.succ_mul, Nat.add_div_of_dvd_left h]

namespace Accepted

variable (h : Accepted c.num c.den)

include h

theorem spaced : c.Spaced (⌊c.exactPeriod⌋₊ : Nat) := by
  intro n hfits
  have hmono := c.exactTicks_mono (show c.count + n ≤ c.count + (n + 1) by omega)
  obtain ⟨t, ht, hticks⟩ := h.timeAfter_of_fits (n := n) (by omega)
  obtain ⟨t', ht', hticks'⟩ := h.timeAfter_of_fits hfits
  rw [exactTicks] at hticks hticks'
  have hfloor : ⌊c.exactPeriod⌋₊ = mainFreq * c.den / c.num := c.floor_exactPeriod
  refine ⟨t, t', ht, ht', ?_, ?_⟩
  · rw [hticks', hticks, hfloor, ← Nat.add_assoc]
    rcases grid_succ_cases h.num_pos c.den (c.count + n) with hnext | hnext <;> omega
  · intro hdvd
    rw [hticks', hticks, hfloor, ← Nat.add_assoc, grid_succ_of_dvd hdvd]
    omega

theorem one_le_floor : 1 ≤ ⌊c.exactPeriod⌋₊ := Nat.le_floor (by exact_mod_cast h.one_le_exactPeriod)

/-- The whole master ticks of a period fit into 64 bits, but not always into a span. -/
theorem floor_lt : ⌊c.exactPeriod⌋₊ < 2 ^ 64 := by
  rw [floor_exactPeriod]
  exact Nat.lt_of_le_of_lt (Nat.div_le_self _ _) h.stepNum_lt

theorem period_of_lt (hfits : c.exactPeriod < 2 ^ 63) :
    c.period.ticks = (⌊c.exactPeriod⌋₊ : Nat) := by
  have hfloor : ⌊c.exactPeriod⌋₊ < 2 ^ 63 := by
    rw [Nat.floor_lt (le_trans zero_le_one h.one_le_exactPeriod)]
    exact_mod_cast hfits
  rw [period, ← floor_exactPeriod, Span.wrap_of_range (by omega) (by omega)]

theorem period_of_le (hlong : 2 ^ 63 ≤ c.exactPeriod) :
    c.period.ticks = (⌊c.exactPeriod⌋₊ : Nat) - 2 ^ 64 := by
  have hfloor : 2 ^ 63 ≤ ⌊c.exactPeriod⌋₊ := Nat.le_floor (by exact_mod_cast hlong)
  have hlt : (⌊c.exactPeriod⌋₊ : Int) < UInt64.size := by exact_mod_cast h.floor_lt
  rw [period, ← floor_exactPeriod, Span.wrap_of_upper (by omega) hlt]
  rfl

end Accepted

/-- What a clock tells of its period: the whole master ticks of it, as long as they fit into a span.
Neighbouring ticks are that far apart. -/
structure KeepsPeriod (c : Clock) : Prop where
  positive_iff : 0 < c.period.ticks ↔ c.exactPeriod < 2 ^ 63
  exact : c.exactPeriod < 2 ^ 63 → c.period.ticks = (⌊c.exactPeriod⌋₊ : Nat)
  cut : 2 ^ 63 ≤ c.exactPeriod → c.period.ticks = (⌊c.exactPeriod⌋₊ : Nat) - 2 ^ 64
  spaced : c.Spaced (⌊c.exactPeriod⌋₊ : Nat)
  spaced_period : c.exactPeriod < 2 ^ 63 → c.Spaced c.period.ticks

theorem ticks_are_a_period_apart (hrate : Accepted c.num c.den) : c.KeepsPeriod where
  positive_iff := by
    have hpos := hrate.one_le_floor
    have hlt := hrate.floor_lt
    constructor
    · intro htold
      by_contra hlong
      rw [hrate.period_of_le (le_of_not_gt hlong)] at htold
      omega
    · intro hfits
      rw [hrate.period_of_lt hfits]
      omega
  exact := hrate.period_of_lt
  cut := hrate.period_of_le
  spaced := hrate.spaced
  spaced_period := by
    intro hfits
    rw [hrate.period_of_lt hfits]
    exact hrate.spaced

/-- Samples at 44.1 kHz are 77922 master ticks apart, and one more where their fractions add up. -/
theorem ticks_are_a_period_apart_44100 :
    (fixed 44100 (by decide) .zero).KeepsPeriod ∧
      (fixed 44100 (by decide) .zero).period.ticks = 77922 ∧
      (fixed 44100 (by decide) .zero).exactTicks 15 =
        (fixed 44100 (by decide) .zero).exactTicks 14 + 77923 :=
  ⟨ticks_are_a_period_apart (.fixed (by decide) .zero), by decide, by decide⟩

/-- The period of the slowest clock does not fit into a span and is told as a negative one. -/
theorem period_told_negative : ∃ c₀ c : Clock,
    new .zero 1 = .ok c₀ ∧ c₀.setRatio 1 4294967295 = .ok c ∧
      c.period.ticks = -3687676515968007616 ∧ c.exactTicks 1 = 14759067557741544000 ∧
      ¬ 0 < c.period.ticks ∧ ¬ c.Spaced c.period.ticks := by
  have hperiod : (⟨.zero, 0, 1, 4294967295⟩ : Clock).period.ticks = -3687676515968007616 := by
    decide
  refine ⟨⟨.zero, 0, 1, 1⟩, ⟨.zero, 0, 1, 4294967295⟩, rfl, rfl, hperiod, rfl, by decide, ?_⟩
  intro h
  obtain ⟨t, t', ht, -, hgap, -⟩ := h 0 (by decide)
  have hfirst : (⟨.zero, 0, 1, 4294967295⟩ : Clock).timeAfter 0 = .ok .zero := rfl
  have hticks : t.ticks = 0 := congrArg Instant.ticks (Except.ok.inj (ht.symm.trans hfirst))
  omega

end Timebase.Clock
