import Mathlib.Order.Bounds.Basic
import Timebase.Proofs.Drift

/-!
# Looking up ticks

The number of the last tick up to an instant is computed by one division from the distance to the
anchor. It is the exact inverse of the placing of ticks, at every rate that a clock can have. So a
clock that moves to an instant stands at the last tick up to it, and ticks that are counted from
there on add up with those that have been counted before.
-/

namespace Timebase.Clock

variable {c : Clock} {k m : Nat} {t t' : Instant}

/-- The `k`-th tick after the current one is the last one up to an instant. -/
def LastTill (c : Clock) (t : Instant) (k : Nat) : Prop :=
  IsGreatest {k | c.exactTicks (c.count + k) ≤ t.ticks} k

theorem LastTill.lt_next (h : c.LastTill t k) : t.ticks < c.exactTicks (c.count + (k + 1)) := by
  by_contra hle
  have hlater := h.2 (Nat.le_of_not_lt hle)
  omega

theorem LastTill.add (h : (c.withCount (c.count + k)).LastTill t m) : c.LastTill t (k + m) := by
  have hshift (n : Nat) : (c.withCount (c.count + k)).exactTicks (c.count + k + n) =
      c.exactTicks (c.count + (k + n)) := by
    rw [Nat.add_assoc]
    rfl
  constructor
  · exact Nat.le_trans (Nat.le_of_eq (hshift m).symm) h.1
  · intro n hn
    by_cases hfirst : n ≤ k
    · omega
    · have hrest : n - k ≤ m := by
        apply h.2
        apply Nat.le_trans (Nat.le_of_eq (hshift (n - k)))
        rw [Nat.add_sub_cancel' (by omega)]
        exact hn
      omega

theorem anchor_ne_asap (h : c.exactTicks m < UInt64.size - 1) : c.anchor ≠ .asap := by
  intro hasap
  have hticks : c.anchor.ticks = UInt64.size - 1 := congrArg Instant.ticks hasap
  rw [exactTicks] at h
  omega

section

variable (ht : t ≠ .asap) (hrate : Accepted c.num c.den) (hanchor : c.anchor ≠ .asap)

include ht hrate hanchor

/-- A tick is among those that the lookup finds exactly if it is no later than asked for. -/
theorem lastTick_greatest (hle : c.anchor.ticks ≤ t.ticks) :
    ∃ last, c.lastTick t = .ok last ∧ ∀ m, m ≤ last ↔ c.exactTicks m ≤ t.ticks := by
  refine ⟨_, lastTick_of_le hrate hanchor ht hle, ?_⟩
  intro m
  rw [hrate.le_last_iff, exactTicks]
  omega

theorem ticksTill_of_before (h : t.ticks < c.exactTicks c.count) : c.ticksTill t = .ok 0 := by
  rw [ticksTill]
  by_cases hbefore : t < c.anchor
  · exact if_pos hbefore
  · rw [if_neg hbefore]
    rw [Instant.lt_iff_ticks ht hanchor] at hbefore
    obtain ⟨last, hlast, hfound⟩ := lastTick_greatest ht hrate hanchor (Nat.le_of_not_lt hbefore)
    have hcount : last ≤ c.count := by
      by_contra hlater
      have hreached := (hfound c.count).mp (by omega)
      omega
    rw [hlast]
    show Except.ok (last - c.count) = _
    rw [Nat.sub_eq_zero_of_le hcount]

theorem ticksTill_of_passed (h : c.exactTicks c.count ≤ t.ticks) :
    ∃ k, c.ticksTill t = .ok k ∧ c.lastTick t = .ok (c.count + k) ∧ c.LastTill t k := by
  have hle : c.anchor.ticks ≤ t.ticks := Nat.le_trans (Nat.le_add_right _ _) h
  have hreached : ¬ t < c.anchor := by
    rw [Instant.lt_iff_ticks ht hanchor]
    omega
  obtain ⟨last, hlast, hfound⟩ := lastTick_greatest ht hrate hanchor hle
  have hcount : c.count ≤ last := (hfound _).mpr h
  refine ⟨last - c.count, ?_, ?_, ?_, ?_⟩
  · rw [ticksTill, if_neg hreached, hlast]
    rfl
  · rw [Nat.add_sub_cancel' hcount, hlast]
  · apply (hfound _).mp
    rw [Nat.add_sub_cancel' hcount]
  · intro m hm
    have hlater := (hfound _).mpr hm
    omega

end

/-- The lookup of ticks is the inverse of their placing: the ticks up to an instant are counted
exactly, a clock moves to the last of them, and it makes no difference whether it stops on the
way. -/
structure LooksUp (c : Clock) (t : Instant) : Prop where
  before : t.ticks < c.exactTicks c.count → c.ticksTill t = .ok 0
  passed : c.exactTicks c.count ≤ t.ticks → ∃ k c' now,
    c.ticksTill t = .ok k ∧ c.LastTill t k ∧ c.advance t = .ok c' ∧
      c' = c.withCount (c.count + k) ∧ c'.time = .ok now ∧
      now.ticks = c.exactTicks (c.count + k) ∧ now ≤ t ∧
      t.ticks < c.exactTicks (c.count + k + 1)
  stopped : ∀ t₁ : Instant, t₁ ≠ .asap → c.exactTicks c.count ≤ t₁.ticks → t₁ ≤ t →
    ∃ k₁ c₁ k₂, c.ticksTill t₁ = .ok k₁ ∧ c.advance t₁ = .ok c₁ ∧ c₁.ticksTill t = .ok k₂ ∧
      c.ticksTill t = .ok (k₁ + k₂)

theorem ticks_are_looked_up_exactly (hrate : Accepted c.num c.den)
    (hnow : c.exactTicks c.count < UInt64.size - 1) (ht : t ≠ .asap) : LooksUp c t := by
  have hanchor := anchor_ne_asap hnow
  refine ⟨ticksTill_of_before ht hrate hanchor, ?_, ?_⟩
  · intro h
    obtain ⟨k, htill, hlast, hk⟩ := ticksTill_of_passed ht hrate hanchor h
    have hreached : c.exactTicks (c.count + k) ≤ t.ticks := hk.1
    have hlt := t.ticks_lt
    obtain ⟨now, htime, hticks⟩ := ticks_of_instantOf (Nat.lt_of_le_of_lt hreached hlt)
    have hnow : now ≤ t := Instant.le_of_ticks_le ht (by omega)
    exact ⟨k, _, now, htill, hk, advance_of_lastTick ht h (Nat.le_add_right _ _) hlast, rfl,
      htime, hticks, hnow, hk.lt_next⟩
  · intro t₁ ht₁ hpassed hle
    have hticks := Instant.ticks_le_of_le ht ht₁ hle
    obtain ⟨k₁, htill₁, hlast₁, hk₁⟩ := ticksTill_of_passed ht₁ hrate hanchor hpassed
    have hreached : c.exactTicks (c.count + k₁) ≤ t.ticks := Nat.le_trans hk₁.1 hticks
    obtain ⟨k, htill, -, hk⟩ :=
      ticksTill_of_passed ht hrate hanchor (Nat.le_trans hpassed hticks)
    obtain ⟨k₂, htill₂, -, hk₂⟩ :=
      ticksTill_of_passed (c := c.withCount (c.count + k₁)) ht hrate hanchor hreached
    have hsum : k = k₁ + k₂ := hk.unique hk₂.add
    refine ⟨k₁, _, k₂, htill₁,
      advance_of_lastTick ht₁ hpassed (Nat.le_add_right _ _) hlast₁, htill₂, ?_⟩
    rw [htill, hsum]

/-- Ticks one and a half master ticks apart, at 0, 1, 3, 4 and 6: at 5 the one at 4 is the last. -/
theorem ticks_are_looked_up_exactly_at_four :
    ∃ c' now, LooksUp (fixed 2290908800 (by decide) .zero) ⟨5, by decide⟩ ∧
      (fixed 2290908800 (by decide) .zero).advance ⟨5, by decide⟩ = .ok c' ∧
      c'.count = 3 ∧ c'.time = .ok now ∧ now.ticks = 4 :=
  ⟨_, _, ticks_are_looked_up_exactly (.fixed (by decide) .zero) (by decide) (by decide), rfl, rfl,
    rfl, rfl⟩

end Timebase.Clock
