import Timebase.Proofs.Time.Arithmetic

/-!
# The operators on instants

A plain sum is held against the 64 bits of a count, a checked one against the finite instants, so
that they differ at the two sentinels and nowhere else. A difference of instants is told exactly if
the two are less than half of the count apart. Further apart the sign comes out wrong.
-/

namespace Timebase

namespace Span

variable {d d' : Span}

theorem wrap_of_lower {n : Int} (h : n < -9223372036854775808) (h' : -UInt64.size < n) :
    (wrap n).ticks = n + UInt64.size := by
  have hsize : (UInt64.size : Int) = 18446744073709551616 := rfl
  have hmod : n % UInt64.size = n + UInt64.size := by
    rw [← Int.add_emod_right, Int.emod_eq_of_lt (by omega) (by omega)]
  show n.bmod UInt64.size = _
  rw [Int.bmod, hmod]
  split <;> omega

theorem negate_of_ne_least (h : d.ticks ≠ -9223372036854775808) :
    ∃ d', d.negate = .ok d' ∧ d'.ticks = -d.ticks := by
  have hleast := d.least
  have hgreatest := d.greatest
  have hfits : Fits (-d.ticks) := ⟨by omega, by omega⟩
  exact exact_of_fits hfits

theorem negate_of_least (h : d.ticks = -9223372036854775808) :
    d.negate = Attempt.violate (.overflow .negate) := by
  have hlong : ¬ Fits (-d.ticks) := fun hfits => absurd (h ▸ hfits.2) (by decide)
  exact exact_of_not_fits hlong

end Span

namespace Instant

variable {a b t t' : Instant} {d e : Span}

/-- Moves on by a span in place. -/
def moveOn (d : Span) : Run Instant Unit := Run.update (·.add d)

/-- A count that stands for no point in time. -/
def IsSentinel (n : Int) : Prop := n = never.ticks ∨ n = asap.ticks

theorem isFinite_iff_ticks : t.isFinite = true ↔ t.ticks < never.ticks := by
  constructor
  · exact lt_never_of_isFinite
  · intro h
    cases hfinite : t.isFinite with
    | true => rfl
    | false => exact absurd h (Nat.not_lt.mpr (le_ticks_of_not_isFinite hfinite))

/-- A plain sum is exact wherever it is a count of 64 bits, and a violation elsewhere. -/
theorem add_cases (ht : t ≠ asap) (d : Span) :
    (∃ t', t.add d = .ok t' ∧ (t'.ticks : Int) = t.ticks + d.ticks) ∨
      t.add d = Attempt.violate .instantOutOfRange ∧
        ¬ (0 ≤ (t.ticks : Int) + d.ticks ∧ (t.ticks : Int) + d.ticks < UInt64.size) := by
  have hkept : Attempt.demand (!t.isAsap) .asapInstant = .ok () := by
    rw [isAsap_of_ne ht]
    rfl
  simp only [add, hkept, bind, Except.bind]
  by_cases hpos : 0 ≤ (t.ticks : Int) + d.ticks
  · simp only [if_pos hpos]
    have hcount : ((((t.ticks : Int) + d.ticks).toNat : Nat) : Int) = t.ticks + d.ticks :=
      Int.toNat_of_nonneg hpos
    by_cases hlt : ((t.ticks : Int) + d.ticks).toNat < UInt64.size
    · rw [ofTicks?, dif_pos hlt]
      exact Or.inl ⟨_, rfl, hcount⟩
    · rw [ofTicks?, dif_neg hlt]
      exact Or.inr ⟨rfl, by omega⟩
  · rw [if_neg hpos]
    exact Or.inr ⟨rfl, fun h => hpos h.1⟩

theorem add_eq_ok_iff (ht : t ≠ asap) :
    t.add d = .ok t' ↔ (t'.ticks : Int) = t.ticks + d.ticks := by
  constructor
  · exact ticks_of_add_eq_ok
  · intro hticks
    rcases add_cases ht d with ⟨t'', hadd, hexact⟩ | ⟨-, hout⟩
    · rw [hadd, show t'' = t' from ext (by omega)]
    · have hlt := t'.ticks_lt
      omega

theorem moveOn_of_add_eq_ok (h : t.add d = .ok t') : moveOn d t = .ok () t' :=
  Run.update_eq_ok.mpr h

theorem moveOn_of_violated {cause : Violation} (h : t.add d = Attempt.violate cause) :
    moveOn d t = .error (.fault (.violated cause)) t := by
  rw [moveOn, Run.update, h]
  rfl

theorem subtract_of_negate (h : d.negate = .ok e) : t.subtract d = t.add e := by
  rw [subtract, h]
  rfl

theorem subtract_cases (ht : t ≠ asap) (hleast : d.ticks ≠ -9223372036854775808) :
    (∃ t', t.subtract d = .ok t' ∧ (t'.ticks : Int) = t.ticks - d.ticks) ∨
      t.subtract d = Attempt.violate .instantOutOfRange ∧
        ¬ (0 ≤ (t.ticks : Int) - d.ticks ∧ (t.ticks : Int) - d.ticks < UInt64.size) := by
  obtain ⟨e, he, hopposite⟩ := Span.negate_of_ne_least hleast
  rw [subtract_of_negate he, Int.sub_eq_add_neg, ← hopposite]
  exact add_cases ht e

/-- What a finite instant and a span add up to: plain and checked sums come to the same unless the
sum is the count of a sentinel, which only the checked sum refuses. -/
structure AddsUp (t : Instant) (d : Span) : Prop where
  checked : (∃ t', t.addChecked d = .ok t') ∨ t.addChecked d = Attempt.refuseTime .overflow
  exact : ∀ t', t.addChecked d = .ok t' →
    t.add d = .ok t' ∧ moveOn d t = .ok () t' ∧ t'.isFinite = true ∧
      (t'.ticks : Int) = t.ticks + d.ticks
  refused : t.addChecked d = Attempt.refuseTime .overflow → ¬ IsSentinel (t.ticks + d.ticks) →
    t.add d = Attempt.violate .instantOutOfRange ∧
      moveOn d t = .error (.fault (.violated .instantOutOfRange)) t
  sentinel : IsSentinel (t.ticks + d.ticks) →
    t.addChecked d = Attempt.refuseTime .overflow ∧
      ∃ t', t.add d = .ok t' ∧ moveOn d t = .ok () t' ∧ t'.isFinite = false ∧
        (t'.ticks : Int) = t.ticks + d.ticks
  later : ∀ t', t.add d = .ok t' → 0 < d.ticks → (t < t' ↔ t' ≠ asap)

/-- What a span leaves of a finite instant when it is taken away: the exact instant or nothing,
apart from the sentinels and from the span that has no opposite. -/
structure TakesAway (t : Instant) (d : Span) : Prop where
  exact : d.ticks ≠ -9223372036854775808 → 0 ≤ (t.ticks : Int) - d.ticks →
    (t.ticks : Int) - d.ticks < never.ticks →
      ∃ t', t.subtract d = .ok t' ∧ t'.isFinite = true ∧ (t'.ticks : Int) = t.ticks - d.ticks
  out_of_range : d.ticks ≠ -9223372036854775808 → ¬ IsSentinel (t.ticks - d.ticks) →
    ¬ (0 ≤ (t.ticks : Int) - d.ticks ∧ (t.ticks : Int) - d.ticks < never.ticks) →
      t.subtract d = Attempt.violate .instantOutOfRange
  sentinel : d.ticks ≠ -9223372036854775808 → IsSentinel (t.ticks - d.ticks) →
    ∃ t', t.subtract d = .ok t' ∧ t'.isFinite = false ∧ (t'.ticks : Int) = t.ticks - d.ticks
  no_opposite : d.ticks = -9223372036854775808 →
    t.subtract d = Attempt.violate (.overflow .negate)

/-- Later exactly if the greater count is not that of the earliest opportunity. -/
theorem lt_of_add_iff (ht : t ≠ asap) (h : t.add d = .ok t') (hpos : 0 < d.ticks) :
    t < t' ↔ t' ≠ asap := by
  constructor
  · exact ne_asap_of_lt
  · intro ht'
    have hticks := ticks_of_add_eq_ok h
    rw [lt_iff_ticks ht ht']
    omega

theorem addsUp (ht : t.isFinite = true) (d : Span) : t.AddsUp d := by
  have hne := ne_asap_of_isFinite ht
  have hnever : never.ticks = UInt64.size - 2 := rfl
  have hasap : asap.ticks = UInt64.size - 1 := rfl
  have hsize : (UInt64.size : Int) = 18446744073709551616 := rfl
  refine ⟨?_, ?_, ?_, ?_, fun t' h => lt_of_add_iff hne h⟩
  · rcases addChecked_cases hne d with ⟨t', hok, -⟩ | ⟨hrefused, -⟩
    · exact Or.inl ⟨t', hok⟩
    · exact Or.inr hrefused
  · intro t' hok
    obtain ⟨-, hfinite, hticks⟩ := addChecked_eq_ok hok
    have hadd := (add_eq_ok_iff hne).mpr hticks
    exact ⟨hadd, moveOn_of_add_eq_ok hadd, hfinite, hticks⟩
  · intro hrefused hproper
    -- Between the finite instants and the end of the 64 bits there are the sentinels alone.
    rcases add_cases hne d with ⟨t', -, hticks⟩ | ⟨hviolated, -⟩
    · exfalso
      rcases addChecked_cases hne d with ⟨_, hok, -⟩ | ⟨-, hout⟩
      · rw [hok] at hrefused
        cases hrefused
      · have hlt := t'.ticks_lt
        rw [IsSentinel] at hproper
        omega
    · exact ⟨hviolated, moveOn_of_violated hviolated⟩
  · intro hsentinel
    rw [IsSentinel] at hsentinel
    constructor
    · rcases addChecked_cases hne d with ⟨t', -, hfinite, hticks⟩ | ⟨hrefused, -⟩
      · have hlt := lt_never_of_isFinite hfinite
        omega
      · exact hrefused
    · rcases add_cases hne d with ⟨t', hok, hticks⟩ | ⟨-, hout⟩
      · refine ⟨t', hok, moveOn_of_add_eq_ok hok, ?_, hticks⟩
        rw [Bool.eq_false_iff, Ne, isFinite_iff_ticks]
        omega
      · omega

theorem takesAway (ht : t.isFinite = true) (d : Span) : t.TakesAway d := by
  have hne := ne_asap_of_isFinite ht
  have hnever : never.ticks = UInt64.size - 2 := rfl
  have hasap : asap.ticks = UInt64.size - 1 := rfl
  have hsize : (UInt64.size : Int) = 18446744073709551616 := rfl
  refine ⟨?_, ?_, ?_, ?_⟩
  · intro hleast hpos hlt
    rcases subtract_cases hne hleast with ⟨t', hok, hticks⟩ | ⟨-, hout⟩
    · exact ⟨t', hok, isFinite_iff_ticks.mpr (by omega), hticks⟩
    · omega
  · intro hleast hproper hout
    rw [IsSentinel] at hproper
    rcases subtract_cases hne hleast with ⟨t', -, hticks⟩ | ⟨hviolated, -⟩
    · have hlt := t'.ticks_lt
      omega
    · exact hviolated
  · intro hleast hsentinel
    rw [IsSentinel] at hsentinel
    rcases subtract_cases hne hleast with ⟨t', hok, hticks⟩ | ⟨-, hout⟩
    · refine ⟨t', hok, ?_, hticks⟩
      rw [Bool.eq_false_iff, Ne, isFinite_iff_ticks]
      omega
    · omega
  · intro hleast
    rw [subtract, Span.negate_of_least hleast]
    rfl

theorem sums_are_exact_apart_from_sentinels (ht : t.isFinite = true) (d : Span) :
    t.AddsUp d ∧ t.TakesAway d :=
  ⟨addsUp ht d, takesAway ht d⟩

/-- The last finite instant takes no more, and half of the count can be taken away from it. -/
theorem sums_are_exact_apart_from_sentinels_at_last : ∃ t t' : Instant, ∃ d : Span,
    t.ticks = 18446744073709551613 ∧ d.ticks = 9223372036854775807 ∧
      (t.AddsUp d ∧ t.TakesAway d) ∧ t.add d = Attempt.violate .instantOutOfRange ∧
      t.subtract d = .ok t' ∧ t'.ticks = 9223372036854775806 := by
  refine ⟨⟨18446744073709551613, by decide⟩, ⟨9223372036854775806, by decide⟩,
    ⟨9223372036854775807, by decide, by decide⟩, rfl, rfl, ?_, ?_, ?_, rfl⟩
  · exact sums_are_exact_apart_from_sentinels (by decide) _
  · rfl
  · rfl

/-- Two ticks more than the last finite instant are the earliest opportunity, where the checked sum
is refused. The least span cannot be taken away at all, although the result were finite. -/
theorem sum_is_sentinel : ∃ t : Instant, ∃ d least : Span,
    t.isFinite = true ∧ d.ticks = 2 ∧ t.addChecked d = Attempt.refuseTime .overflow ∧
      t.add d = .ok asap ∧ ¬ t < asap ∧
      zero.subtract least = Attempt.violate (.overflow .negate) ∧
      (zero.ticks : Int) - least.ticks = 9223372036854775808 :=
  ⟨⟨18446744073709551613, by decide⟩, ⟨2, by decide, by decide⟩,
    ⟨-9223372036854775808, by decide, by decide⟩, rfl, rfl, rfl, rfl, by decide, rfl, rfl⟩

/-- Less than half of the count apart, one of the ends included. -/
def Near (a b : Instant) : Prop :=
  -9223372036854775808 ≤ (a.ticks : Int) - b.ticks ∧
    (a.ticks : Int) - b.ticks < 9223372036854775808

/-- What the spans from one instant to another tell. -/
structure TellsSpan (a b : Instant) (d e : Span) : Prop where
  exact_iff : d.ticks = (a.ticks : Int) - b.ticks ↔ a.Near b
  sign_iff : (d.isNegative = true ↔ a < b) ↔ a.Near b
  back : ∀ t, b.add d = .ok t → t = a
  back_iff : b.add d = .ok a ↔ a.Near b
  no_way_back : ¬ a.Near b → b.add d = Attempt.violate .instantOutOfRange
  non_negative_iff : e.isNegative = false ↔ (a.ticks : Int) - b.ticks < 9223372036854775808
  same : b ≤ a → e = d
  clamped : a < b → e = .zero

/-- Three cases: near, or too far on either side. -/
theorem wrap_sub_cases (a b : Instant) :
    a.Near b ∧ (Span.wrap ((a.ticks : Int) - b.ticks)).ticks = (a.ticks : Int) - b.ticks ∨
      (9223372036854775808 ≤ (a.ticks : Int) - b.ticks ∧
        (Span.wrap ((a.ticks : Int) - b.ticks)).ticks =
          (a.ticks : Int) - b.ticks - 18446744073709551616) ∨
      (a.ticks : Int) - b.ticks < -9223372036854775808 ∧
        (Span.wrap ((a.ticks : Int) - b.ticks)).ticks =
          (a.ticks : Int) - b.ticks + 18446744073709551616 := by
  have hlta : a.ticks < 18446744073709551616 := a.ticks_lt
  have hltb : b.ticks < 18446744073709551616 := b.ticks_lt
  have hsize : (UInt64.size : Int) = 18446744073709551616 := rfl
  rw [Near]
  by_cases hlower : (a.ticks : Int) - b.ticks < -9223372036854775808
  · exact Or.inr (Or.inr ⟨hlower, Span.wrap_of_lower hlower (by omega)⟩)
  · by_cases hupper : 9223372036854775808 ≤ (a.ticks : Int) - b.ticks
    · exact Or.inr (Or.inl ⟨hupper, Span.wrap_of_upper hupper (by omega)⟩)
    · exact Or.inl ⟨by omega, Span.wrap_of_range (by omega) (by omega)⟩

theorem tellsSpan (ha : a ≠ asap) (hb : b ≠ asap) :
    a.TellsSpan b (Span.wrap ((a.ticks : Int) - b.ticks)) (Span.wrap (a.ticks - b.ticks : Nat)) := by
  have hlta : a.ticks < 18446744073709551616 := a.ticks_lt
  have hltb : b.ticks < 18446744073709551616 := b.ticks_lt
  have hcases := wrap_sub_cases a b
  generalize hd : Span.wrap ((a.ticks : Int) - b.ticks) = d at hcases ⊢
  rw [Near] at hcases
  have hsame : b ≤ a → Span.wrap (a.ticks - b.ticks : Nat) = d := by
    intro hle
    rw [Int.ofNat_sub (ticks_le_of_le ha hb hle), hd]
  have hclamped : a < b → Span.wrap (a.ticks - b.ticks : Nat) = .zero := by
    intro hlt
    rw [Nat.sub_eq_zero_of_le (Nat.le_of_lt ((lt_iff_ticks ha hb).mp hlt))]
    rfl
  have hnegative {e : Span} : e.isNegative = true ↔ e.ticks < 0 := decide_eq_true_iff
  have hsign := lt_iff_ticks ha hb
  have hback : b.add d = .ok a ↔ a.Near b := by
    rw [add_eq_ok_iff hb, Near]
    omega
  refine ⟨?_, ?_, ?_, hback, ?_, ?_, hsame, hclamped⟩
  · rw [Near]
    omega
  · rw [hnegative, hsign, Near]
    omega
  · intro t h
    have hticks := ticks_of_add_eq_ok h
    have hltt : t.ticks < 18446744073709551616 := t.ticks_lt
    exact ext (by omega)
  · intro hfar
    rcases add_cases hb d with ⟨t, -, hticks⟩ | ⟨hviolated, -⟩
    · have hltt : t.ticks < 18446744073709551616 := t.ticks_lt
      rw [Near] at hfar
      omega
    · exact hviolated
  · rcases Nat.lt_or_ge a.ticks b.ticks with hlt | hge
    · rw [hclamped (hsign.mpr hlt)]
      exact ⟨fun _ => by omega, fun _ => rfl⟩
    · rw [hsame (le_of_ticks_le ha hge), Bool.eq_false_iff, Ne, hnegative]
      omega

theorem sinceEarlier_of_ne_asap (ha : a ≠ asap) (hb : b ≠ asap) :
    a.sinceEarlier b = .ok (Span.wrap (a.ticks - b.ticks : Nat)) := by
  rw [sinceEarlier, isAsap_of_ne ha, isAsap_of_ne hb]
  rfl

theorem spans_tell_near_instants (ha : a ≠ asap) (hb : b ≠ asap) :
    ∃ d e, a.since b = .ok d ∧ a.sinceEarlier b = .ok e ∧ a.TellsSpan b d e :=
  ⟨_, _, since_of_ne_asap ha hb, sinceEarlier_of_ne_asap ha hb, tellsSpan ha hb⟩

/-- Half of the count is near looking back. -/
theorem spans_tell_near_instants_half : ∃ a b : Instant, ∃ d e : Span,
    a.ticks = 0 ∧ b.ticks = 9223372036854775808 ∧ a.Near b ∧
      (a.since b = .ok d ∧ a.sinceEarlier b = .ok e ∧ a.TellsSpan b d e) ∧
      d.ticks = -9223372036854775808 ∧ e.ticks = 0 := by
  obtain ⟨d, e, hd, he, htells⟩ := spans_tell_near_instants (a := zero)
    (b := ⟨9223372036854775808, by decide⟩) (by decide) (by decide)
  have hnear : zero.Near ⟨9223372036854775808, by decide⟩ := ⟨by decide, by decide⟩
  refine ⟨zero, _, d, e, rfl, rfl, hnear, ⟨hd, he, htells⟩, htells.exact_iff.mpr hnear, ?_⟩
  rw [htells.clamped (by decide)]
  rfl

/-- Half of the count is too far looking ahead: both spans come out negative, and there is no way
back. -/
theorem span_told_negative : ∃ a : Instant, ∃ d : Span,
    a.ticks = 9223372036854775808 ∧ zero < a ∧ a.since zero = .ok d ∧ a.sinceEarlier zero = .ok d ∧
      d.ticks = -9223372036854775808 ∧ d.isNegative = true ∧
      zero.add d = Attempt.violate .instantOutOfRange := by
  have hne : (⟨9223372036854775808, by decide⟩ : Instant) ≠ asap := by decide
  have hzero : zero ≠ asap := by decide
  have htells := tellsSpan hne hzero
  refine ⟨_, _, rfl, by decide, since_of_ne_asap hne hzero, ?_, ?_, ?_, ?_⟩
  · rw [sinceEarlier_of_ne_asap hne hzero, htells.same (by decide)]
  · exact Span.wrap_of_upper (by decide) (by decide)
  · exact decide_eq_true (by decide)
  · exact htells.no_way_back fun hnear => absurd hnear.2 (by decide)

end Instant
end Timebase
