import Timebase.Time.Instant

/-!
# The order of instants

Instants are ordered by their keys: the earliest opportunity first, then the counts of ticks, and
last the instant that is never reached.
-/

namespace Timebase.Instant

variable {a b c t : Instant}

theorem lt_iff_key : a < b ↔ a.key < b.key := Iff.rfl

theorem le_iff_key : a ≤ b ↔ a.key ≤ b.key := Iff.rfl

theorem not_lt : ¬ a < b ↔ b ≤ a := Nat.not_lt

theorem not_le : ¬ a ≤ b ↔ b < a := Nat.not_le

theorem le_refl (a : Instant) : a ≤ a := Nat.le_refl _

theorem le_trans (h : a ≤ b) (h' : b ≤ c) : a ≤ c := Nat.le_trans h h'

theorem le_of_lt (h : a < b) : a ≤ b := Nat.le_of_lt h

theorem lt_of_lt_of_le (h : a < b) (h' : b ≤ c) : a < c := Nat.lt_of_lt_of_le h h'

theorem lt_of_le_of_lt (h : a ≤ b) (h' : b < c) : a < c := Nat.lt_of_le_of_lt h h'

theorem le_antisymm (h : a ≤ b) (h' : b ≤ a) : a = b := key_injective (Nat.le_antisymm h h')

@[simp] theorem key_asap : asap.key = 0 := rfl

theorem key_never : never.key = UInt64.size - 1 := rfl

theorem isAsap_of_ne (h : t ≠ asap) : t.isAsap = false := by
  cases ht : t.isAsap with
  | true => exact absurd (isAsap_iff.mp ht) h
  | false => rfl

theorem isAsap_asap : asap.isAsap = true := rfl

theorem asap_le : asap ≤ t := Nat.zero_le _

theorem asap_lt (h : t ≠ asap) : asap < t := by
  rw [lt_iff_key, key_asap, key_of_ne_asap h]
  exact Nat.succ_pos _

theorem ne_asap_of_lt (h : a < b) : b ≠ asap := by
  rintro rfl
  exact Nat.not_lt_zero _ h

theorem lt_iff_ticks (ha : a ≠ asap) (hb : b ≠ asap) : a < b ↔ a.ticks < b.ticks := by
  rw [lt_iff_key, key_of_ne_asap ha, key_of_ne_asap hb]
  exact Nat.succ_lt_succ_iff

theorem le_of_ticks_le (hb : b ≠ asap) (h : a.ticks ≤ b.ticks) : a ≤ b := by
  rw [le_iff_key, key_of_ne_asap hb, key]
  split <;> omega

theorem le_never : t ≤ never := by
  have h := t.key_lt
  rw [le_iff_key, key_never]
  omega

theorem lt_never_iff : t < never ↔ t ≠ never := by
  constructor
  · rintro h rfl
    exact not_lt.mpr (le_refl never) h
  · intro h
    exact not_le.mp fun hle => h (le_antisymm le_never hle)

theorem isFinite_iff : t.isFinite = true ↔ t ≠ asap ∧ t ≠ never := by
  simp [isFinite]

theorem ne_asap_of_isFinite (h : t.isFinite = true) : t ≠ asap := by
  rintro rfl
  exact absurd h (by decide)

theorem ticks_earlier (ha : a ≠ asap) (hb : b ≠ asap) :
    (a.earlier b).ticks = min a.ticks b.ticks := by
  rw [earlier]
  by_cases h : b < a
  · rw [if_pos h]
    rw [lt_iff_ticks hb ha] at h
    omega
  · rw [if_neg h]
    rw [lt_iff_ticks hb ha] at h
    omega

theorem later_eq (ha : a ≠ asap) (hb : b ≠ asap) : a.later b = if a < b then b else a := by
  rw [later]
  by_cases h : a < b
  · rw [if_pos h, if_pos ((lt_iff_ticks ha hb).mp h)]
  · rw [if_neg h, if_neg fun hlt => h ((lt_iff_ticks ha hb).mpr hlt)]

/-- Apart from the earliest opportunity the later of two instants is the greater one. -/
theorem key_later (ha : a ≠ asap) (hb : b ≠ asap) : (a.later b).key = max a.key b.key := by
  rw [later_eq ha hb]
  by_cases h : a < b
  · rw [if_pos h]
    rw [lt_iff_key] at h
    omega
  · rw [if_neg h]
    rw [lt_iff_key] at h
    omega

theorem later_ne_asap (ha : a ≠ asap) (hb : b ≠ asap) : a.later b ≠ asap := by
  rw [later_eq ha hb]
  by_cases h : a < b
  · rw [if_pos h]
    exact hb
  · rw [if_neg h]
    exact ha

theorem le_later (hb : b ≠ asap) : a ≤ a.later b := by
  rw [later]
  by_cases h : a.ticks < b.ticks
  · rw [if_pos h]
    exact le_of_ticks_le hb (Nat.le_of_lt h)
  · rw [if_neg h]
    exact le_refl a

theorem later_of_le (hb : b ≠ asap) (ha : a ≠ asap) (h : a ≤ b) : a.later b = b := by
  apply key_injective
  rw [key_later ha hb]
  rw [le_iff_key] at h
  omega

theorem later_lt (ha : a < c) (hb : b < c) : a.later b < c := by
  rw [later]
  split
  · exact hb
  · exact ha

theorem later_later (hc : c ≠ asap) (ha : a ≠ asap) (hab : a ≤ b) :
    (c.later a).later b = c.later b := by
  have hb : b ≠ asap := by
    rintro rfl
    exact ha (le_antisymm hab asap_le)
  apply key_injective
  rw [key_later (later_ne_asap hc ha) hb, key_later hc ha, key_later hc hb]
  rw [le_iff_key] at hab
  omega

/-- Instants in the first half of the count are no further apart than a span can tell. -/
def Early (t : Instant) : Prop := t.ticks < 9223372036854775808

theorem early_zero : zero.Early := by
  show 0 < 9223372036854775808
  omega

theorem Early.ne_asap (h : t.Early) : t ≠ asap := by
  rintro rfl
  have hearly : UInt64.size - 1 < 9223372036854775808 := h
  exact absurd hearly (by decide)

theorem Early.of_le (h : b.Early) (ha : a ≠ asap) (hab : a ≤ b) : a.Early := by
  have hb : b.ticks < 9223372036854775808 := h
  rw [le_iff_key, key_of_ne_asap ha, key_of_ne_asap h.ne_asap] at hab
  show a.ticks < 9223372036854775808
  omega

theorem ticks_le_of_le (hb : b ≠ asap) (ha : a ≠ asap) (h : a ≤ b) : a.ticks ≤ b.ticks := by
  rw [le_iff_key, key_of_ne_asap ha, key_of_ne_asap hb] at h
  omega

theorem wrap_ticks {n : Nat} (h : n < UInt64.size) : (wrap n).ticks = n := Nat.mod_eq_of_lt h

theorem wrap_ne_asap {n : Nat} (h : n < UInt64.size - 1) : wrap n ≠ asap := by
  intro heq
  have hticks := congrArg ticks heq
  rw [wrap_ticks (by omega)] at hticks
  have hasap : asap.ticks = UInt64.size - 1 := rfl
  omega

end Timebase.Instant
