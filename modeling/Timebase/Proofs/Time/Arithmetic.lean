import Timebase.Proofs.Outcome
import Timebase.Proofs.Time.Order
import Timebase.Time.Arithmetic

/-!
# Sums and products that come to a result

What comes out of the arithmetic on instants and spans is exact.
-/

namespace Timebase

theorem Instant.le_ticks_of_not_isFinite {t : Instant} (h : t.isFinite = false) :
    never.ticks ≤ t.ticks := by
  rw [isFinite, Bool.and_eq_false_iff, bne_eq_false_iff_eq, bne_eq_false_iff_eq] at h
  rcases h with rfl | rfl
  · exact Nat.le_of_ble_eq_true rfl
  · exact Nat.le_refl _

theorem Instant.ticks_of_ofTicks?_eq_some {n : Nat} {t : Instant} (h : ofTicks? n = some t) :
    t.ticks = n := by
  rw [ofTicks?] at h
  split at h
  · cases h
    rfl
  · cases h

theorem Instant.ticks_of_add_eq_ok {t t' : Instant} {d : Span} (h : t.add d = .ok t') :
    (t'.ticks : Int) = t.ticks + d.ticks := by
  obtain ⟨_, -, h⟩ := Attempt.bind_eq_ok.mp h
  dsimp only at h
  split at h
  · rename_i hpos
    split at h
    · rename_i t'' hticks
      cases h
      rw [ticks_of_ofTicks?_eq_some hticks]
      exact Int.toNat_of_nonneg hpos
    · cases h
  · cases h

theorem Instant.addChecked_eq_ok {t t' : Instant} {d : Span} (h : t.addChecked d = .ok t') :
    t ≠ .asap ∧ t'.isFinite = true ∧ (t'.ticks : Int) = t.ticks + d.ticks := by
  obtain ⟨_, hdemand, h⟩ := Attempt.bind_eq_ok.mp h
  have ht : t ≠ .asap := by
    rintro rfl
    exact absurd (Attempt.demand_eq_ok.mp hdemand) (by decide)
  dsimp only at h
  split at h
  · rename_i hpos
    split at h
    · rename_i t'' hticks
      split at h
      · rename_i hfinite
        cases h
        refine ⟨ht, hfinite, ?_⟩
        rw [ticks_of_ofTicks?_eq_some hticks]
        exact Int.toNat_of_nonneg hpos
      · cases h
    · cases h
  · cases h

/-- A checked sum comes to a result within the finite instants, and is refused outside of them. -/
theorem Instant.addChecked_cases {t : Instant} (ht : t ≠ .asap) (d : Span) :
    (∃ t', t.addChecked d = .ok t' ∧ t'.isFinite = true ∧ (t'.ticks : Int) = t.ticks + d.ticks) ∨
      t.addChecked d = Attempt.refuseTime .overflow ∧
        ¬ (0 ≤ (t.ticks : Int) + d.ticks ∧ (t.ticks : Int) + d.ticks < never.ticks) := by
  have hnever : never.ticks = UInt64.size - 2 := rfl
  have hkept : Attempt.demand (!t.isAsap) .asapInstant = .ok () := by
    rw [isAsap_of_ne ht]
    rfl
  simp only [addChecked, hkept, bind, Except.bind]
  by_cases hpos : 0 ≤ (t.ticks : Int) + d.ticks
  · simp only [if_pos hpos]
    have hcount : ((((t.ticks : Int) + d.ticks).toNat : Nat) : Int) = t.ticks + d.ticks :=
      Int.toNat_of_nonneg hpos
    cases hticks : ofTicks? ((t.ticks : Int) + d.ticks).toNat with
    | some t' =>
      have hexact := ticks_of_ofTicks?_eq_some hticks
      cases hfinite : t'.isFinite with
      | true => exact Or.inl ⟨t', by simp only [hfinite, if_true], hfinite, by omega⟩
      | false =>
        refine Or.inr ⟨by simp only [hfinite, if_neg Bool.false_ne_true], ?_⟩
        have hlast := le_ticks_of_not_isFinite hfinite
        omega
    | none =>
      refine Or.inr ⟨rfl, ?_⟩
      rw [ofTicks?] at hticks
      split at hticks
      · cases hticks
      · omega
  · rw [if_neg hpos]
    exact Or.inr ⟨rfl, fun h => hpos h.1⟩

theorem Instant.since_eq_ok {t t' : Instant} {d : Span} (h : t.since t' = .ok d) :
    t ≠ .asap ∧ t' ≠ .asap ∧ d = Span.wrap ((t.ticks : Int) - t'.ticks) := by
  obtain ⟨_, hdemand, h⟩ := Attempt.bind_eq_ok.mp h
  cases h
  have hboth := Bool.and_eq_true_iff.mp (Attempt.demand_eq_ok.mp hdemand)
  refine ⟨?_, ?_, rfl⟩
  · rintro rfl
    exact absurd hboth.1 (by decide)
  · rintro rfl
    exact absurd hboth.2 (by decide)

theorem Instant.since_of_ne_asap {t t' : Instant} (ht : t ≠ .asap) (ht' : t' ≠ .asap) :
    t.since t' = .ok (Span.wrap ((t.ticks : Int) - t'.ticks)) := by
  rw [since, isAsap_of_ne ht, isAsap_of_ne ht']
  rfl

theorem Instant.ticks_of_since_eq_ok {t t' : Instant} {d : Span} (h : t.since t' = .ok d)
    (hle : t'.ticks ≤ t.ticks) (hnear : t.ticks - t'.ticks < 9223372036854775808) :
    d.ticks = ((t.ticks - t'.ticks : Nat) : Int) := by
  obtain ⟨_, -, h⟩ := Attempt.bind_eq_ok.mp h
  cases h
  rw [Span.wrap_of_range (by omega) (by omega)]
  omega

theorem Instant.lt_never_of_isFinite {t : Instant} (h : t.isFinite = true) :
    t.ticks < UInt64.size - 2 := by
  have hlt := t.ticks_lt
  have hboth := Bool.and_eq_true_iff.mp h
  have hasap : t.ticks ≠ UInt64.size - 1 := fun he => ne_asap_of_isFinite h (ext he)
  have hnever : t.ticks ≠ UInt64.size - 2 := fun he => by
    rw [show t = .never from ext he] at hboth
    exact absurd hboth.2 (by decide)
  omega

namespace Span

/-- A number of ticks that a span has room for. -/
def Fits (n : Int) : Prop := -9223372036854775808 ≤ n ∧ n ≤ 9223372036854775807

theorem exact_of_fits {operation : Operation} {n : Int} (h : Fits n) :
    ∃ d, exact operation n = .ok d ∧ d.ticks = n := by
  have hfits : -9223372036854775808 ≤ n ∧ n ≤ 9223372036854775807 := h
  exact ⟨⟨n, h.1, h.2⟩, by rw [exact, ofTicks?, dif_pos hfits], rfl⟩

theorem exact_of_not_fits {operation : Operation} {n : Int} (h : ¬ Fits n) :
    exact operation n = Attempt.violate (.overflow operation) := by
  have hlong : ¬ (-9223372036854775808 ≤ n ∧ n ≤ 9223372036854775807) := h
  rw [exact, ofTicks?, dif_neg hlong]

theorem wrap_le {n : Int} (h : 0 ≤ n) : (wrap n).ticks ≤ n := by
  by_cases hn : n ≤ 9223372036854775807
  · exact Int.le_of_eq (wrap_of_range (by omega) hn)
  · have hgreatest := (wrap n).greatest
    omega

/-- What is too long for a span by its sign is told as a negative one. -/
theorem wrap_of_upper {n : Int} (h : 9223372036854775808 ≤ n) (h' : n < UInt64.size) :
    (wrap n).ticks = n - UInt64.size := by
  have hsize : (UInt64.size : Int) = 18446744073709551616 := rfl
  rw [wrap]
  show n.bmod UInt64.size = _
  rw [Int.bmod, Int.emod_eq_of_lt (by omega) h']
  split <;> omega

theorem wrap_ofInt (d : Span) : wrap (Word.ofInt d.ticks) = d := by
  have hleast := d.least
  have hgreatest := d.greatest
  have hmod : 0 ≤ d.ticks % UInt64.size := Int.emod_nonneg _ (by decide)
  ext
  rw [wrap, Word.ofInt, Int.toNat_of_nonneg hmod]
  show (d.ticks % UInt64.size).bmod UInt64.size = d.ticks
  rw [Int.emod_bmod, Int.bmod_eq_of_le_mul_two]
  all_goals
    simp only [UInt64.size]
    omega

theorem wrap_emod (n : Int) : (wrap n).ticks % UInt64.size = n % UInt64.size := Int.bmod_emod

theorem ticks_of_checked_eq_ok {n : Int} {d : Span} (h : checked n = .ok d) : d.ticks = n := by
  rw [checked] at h
  split at h
  · rename_i d' hd
    cases h
    rw [ofTicks?] at hd
    split at hd
    · cases hd
      rfl
    · cases hd
  · cases h

/-- A period of a clock that is no faster than the master clock is some time. -/
theorem periodChecked_eq_ok {freq : Nat} {d : Span} (h : periodChecked freq = .ok d) :
    freq ≤ mainFreq ∧ 0 < d.ticks ∧ d.ticks = (mainFreq / freq : Nat) := by
  rw [periodChecked] at h
  split at h
  · cases h
  · rename_i hzero
    split at h
    · cases h
    · rename_i hslow
      rw [period, if_neg hzero] at h
      have hd : wrap (mainFreq / freq : Nat) = d := Except.ok.inj h
      have hle : freq ≤ mainFreq := Nat.le_of_not_lt hslow
      have hpos : 0 < mainFreq / freq := Nat.div_pos hle (Nat.pos_of_ne_zero hzero)
      have hmain : mainFreq / freq ≤ mainFreq := Nat.div_le_self _ _
      have hbound : mainFreq = 3436363200 := rfl
      rw [← hd, wrap_of_range (by omega) (by omega)]
      exact ⟨hle, by omega, rfl⟩

end Span
end Timebase
