import Timebase.Device.AudioSampler
import Timebase.Proofs.Conversion
import Timebase.Proofs.Time.Arithmetic
import Timebase.Proofs.Time.Order

/-!
# Sound in step with time

However often a sampler accounts for the time that has passed, the samples it has counted are those
of the whole time since power-on, since what is left over is carried on. It wants to be woken at
the end of each batch.
-/

namespace Timebase

namespace AudioFormat

variable {rate batch n : Nat} {t : Instant} {f : AudioFormat} {r : Request}

def batchTicks (f : AudioFormat) : Nat := f.batchPeriod.ticks.toNat

theorem batchTicks_lt (f : AudioFormat) : f.batchTicks < 9223372036854775808 := by
  have hgreatest := f.batchPeriod.greatest
  rw [batchTicks]
  omega

/-- A format at a rate no higher than that of the master clock, whose batches take some time. -/
structure Usable (rate : Nat) (f : AudioFormat) : Prop where
  rate_eq : f.rate = rate
  slow : rate ≤ mainFreq
  batch_pos : 0 < f.batchTicks

/-- A batch of at least one sample takes some time if it does not end before it begins. -/
theorem usable_of_new (hpos : 0 < batch) (hlt : batch < UInt64.size)
    (h : AudioFormat.new rate batch = .ok f) (hend : f.endOfBatch .zero = .ok r) :
    f.Usable rate := by
  obtain ⟨period, hperiod, h⟩ := Attempt.bind_eq_ok.mp h
  obtain ⟨span, hspan, h⟩ := Attempt.bind_eq_ok.mp h
  cases h
  obtain ⟨next, hnext, -⟩ := Attempt.bind_eq_ok.mp hend
  obtain ⟨hslow, hsome, -⟩ := Span.periodChecked_eq_ok hperiod
  have hticks := Span.ticks_of_checked_eq_ok hspan
  have hend : (next.ticks : Int) = 0 + span.ticks := Instant.ticks_of_add_eq_ok hnext
  have hne : Int.bmod batch UInt64.size ≠ 0 := by
    intro hzero
    have hdvd := Int.natCast_dvd_natCast.mp (Int.dvd_of_bmod_eq_zero hzero)
    exact absurd (Nat.le_of_dvd hpos hdvd) (Nat.not_le.mpr hlt)
  have hspan : span.ticks ≠ 0 := by
    rw [hticks]
    exact Int.mul_ne_zero (by omega) hne
  refine ⟨rfl, hslow, ?_⟩
  show 0 < span.ticks.toNat
  omega

theorem Usable.endOfBatch (h : f.Usable rate) (hend : f.endOfBatch t = .ok r)
    (ht : t.ticks = n * f.batchTicks) :
    r = ⟨.wrap ((n + 1) * f.batchTicks), batchEnd⟩ ∧ r.time.ticks = t.ticks + f.batchTicks := by
  obtain ⟨next, hnext, hr⟩ := Attempt.bind_eq_ok.mp hend
  cases hr
  have hpos := h.batch_pos
  have hsum := Instant.ticks_of_add_eq_ok hnext
  have hticks : next.ticks = t.ticks + f.batchTicks := by
    rw [batchTicks] at hpos ⊢
    omega
  have hlt := next.ticks_lt
  have heq : next = .wrap ((n + 1) * f.batchTicks) := by
    ext
    rw [Nat.succ_mul, ← ht, ← hticks, Instant.wrap_ticks hlt]
  rw [← heq]
  exact ⟨rfl, hticks⟩

theorem Usable.lt_endOfBatch (h : f.Usable rate) (hend : f.endOfBatch t = .ok r) (ht : t.Early)
    (hn : t.ticks = n * f.batchTicks) : t < r.time := by
  obtain ⟨-, hnext⟩ := h.endOfBatch hend hn
  have hpos := h.batch_pos
  have hbatch := f.batchTicks_lt
  have hearly : t.ticks < 9223372036854775808 := ht
  have hne : r.time ≠ .asap := by
    intro heq
    rw [heq] at hnext
    have hasap : Instant.asap.ticks = 18446744073709551615 := rfl
    omega
  rw [Instant.lt_iff_ticks ht.ne_asap hne, hnext]
  omega

end AudioFormat

namespace AudioSampler

variable {rate : Nat} {now t last : Instant} {f : AudioFormat} {a a' : AudioSampler} {r q : Request}
  {wanted : List Request}

/-- A sampler that has accounted for all the time from one instant to another. -/
def sampled (since : Instant) (rate : Nat) (t : Instant) : AudioSampler where
  converter := ⟨mainFreq, rate, (t.ticks - since.ticks) * rate % mainFreq⟩
  last := t
  samples := (t.ticks - since.ticks) * rate / mainFreq

/-- A sampler that has accounted for all the time since power-on. -/
def accounted (rate : Nat) (t : Instant) : AudioSampler where
  converter := ⟨mainFreq, rate, t.ticks * rate % mainFreq⟩
  last := t
  samples := t.ticks * rate / mainFreq

theorem samples_le (h : rate ≤ mainFreq) (n : Nat) : n * rate / mainFreq ≤ n :=
  Nat.div_le_of_le_mul (by rw [Nat.mul_comm]; exact Nat.mul_le_mul_right n h)

theorem convert_accounted (rate n m : Nat) :
    (n * rate + m * rate % mainFreq) / mainFreq + m * rate / mainFreq =
        (n + m) * rate / mainFreq ∧
      (n * rate + m * rate % mainFreq) % mainFreq = (n + m) * rate % mainFreq := by
  obtain ⟨hdiv, hmod⟩ := RateConverter.convert_carries (by decide : 0 < mainFreq) m n rate 0
  rw [Nat.add_comm m n, Nat.add_zero, Nat.add_zero] at hdiv hmod
  exact ⟨(Nat.add_comm _ _).trans hdiv.symm, hmod.symm⟩

/-- The time that has passed since the last account becomes samples, none of them lost. -/
theorem sampled_convertSpan {since : Instant} {d : Span} (hslow : rate ≤ mainFreq)
    (hsince : since.ticks ≤ last.ticks) (hle : last.ticks ≤ t.ticks)
    (hd : d.ticks = (t.ticks - last.ticks : Nat)) :
    ∃ p, (sampled since rate last).converter.convertSpan d = .ok p ∧
      Word.add (sampled since rate last).samples p.1 = .ok (sampled since rate t).samples ∧
      p.2 = (sampled since rate t).converter := by
  obtain ⟨hdiv, hmod⟩ :=
    convert_accounted rate (t.ticks - last.ticks) (last.ticks - since.ticks)
  have hsplit : t.ticks - last.ticks + (last.ticks - since.ticks) = t.ticks - since.ticks := by
    omega
  rw [hsplit] at hdiv hmod
  have hwhole : (t.ticks - since.ticks) * rate / mainFreq < UInt64.size :=
    Nat.lt_of_le_of_lt (samples_le hslow _) (Nat.lt_of_le_of_lt (Nat.sub_le _ _) t.ticks_lt)
  have hpart : ((t.ticks - last.ticks) * rate + (last.ticks - since.ticks) * rate % mainFreq) /
      mainFreq < UInt64.size := by
    rw [← hdiv] at hwhole
    exact Nat.lt_of_le_of_lt (Nat.le_add_right _ _) hwhole
  have hforth : Attempt.demand (!d.isNegative) .negativeSpan = .ok () := by
    have hsign : ¬ d.ticks < 0 := by omega
    rw [Span.isNegative, decide_eq_false hsign]
    rfl
  refine ⟨_, Attempt.bind_eq_ok.mpr ⟨(), hforth, rfl⟩, ?_, ?_⟩
  · rw [hd, Int.toNat_natCast]
    show Word.add _ (((t.ticks - last.ticks) * rate + (last.ticks - since.ticks) * rate % mainFreq) /
      mainFreq % UInt64.size) = _
    rw [Nat.mod_eq_of_lt hpart]
    show Word.add ((last.ticks - since.ticks) * rate / mainFreq) _ = _
    rw [Word.add, Nat.add_comm, hdiv]
    exact if_pos hwhole
  · rw [hd, Int.toNat_natCast]
    show (⟨mainFreq, rate, ((t.ticks - last.ticks) * rate +
      (last.ticks - since.ticks) * rate % mainFreq) % mainFreq⟩ : RateConverter) = _
    rw [hmod]
    rfl

/-- A sampler accounts for the time up to an instant that is no more than half of the count ahead,
and leaves an earlier one alone. -/
theorem update_sampled {since : Instant} (hslow : rate ≤ mainFreq) (hlast : last ≠ .asap)
    (ht : t ≠ .asap) (hsince : since.ticks ≤ last.ticks)
    (hnear : t.ticks - last.ticks < 9223372036854775808) :
    update t (sampled since rate last) = .ok () (sampled since rate (last.later t)) := by
  let a := sampled since rate last
  have hget : (get : Run AudioSampler AudioSampler) a = .ok a a := rfl
  rw [update, Run.bind_of_ok hget, Instant.later_eq hlast ht]
  split
  · rename_i hback
    have hnot : ¬ last < t := Instant.not_lt.mpr hback
    rw [if_neg hnot]
    rfl
  · rename_i hforth
    have hlt : last < t := Instant.not_le.mp hforth
    have hle := Nat.le_of_lt ((Instant.lt_iff_ticks hlast ht).mp hlt)
    have hd := Instant.since_of_ne_asap ht hlast
    obtain ⟨p, hconvert, hsum, hrest⟩ :=
      sampled_convertSpan hslow hsince hle (Instant.ticks_of_since_eq_ok hd hle hnear)
    let a₁ : AudioSampler := { a with converter := p.2 }
    have hlift : (Run.lift (t.since last) : Run AudioSampler Span) a = .ok _ a :=
      Run.lift_eq_ok.mpr ⟨hd, rfl⟩
    have hread : Run.read (fun a : AudioSampler => a.converter.convertSpan _) a = .ok p a :=
      Run.read_eq_ok.mpr ⟨hconvert, rfl⟩
    have hcount : Run.update (fun a : AudioSampler =>
        do return { a with samples := (← Word.add a.samples p.1) }) a₁ =
          .ok () { a₁ with samples := (sampled since rate t).samples } :=
      Run.update_eq_ok.mpr (Attempt.bind_eq_ok.mpr ⟨_, hsum, rfl⟩)
    have hend : ({ a₁ with samples := (sampled since rate t).samples, last := t } : AudioSampler) =
        sampled since rate t := by
      show (⟨p.2, t, (sampled since rate t).samples⟩ : AudioSampler) = _
      rw [hrest]
      rfl
    rw [if_pos hlt, ← hend]
    exact (Run.bind_of_ok hlift).trans ((Run.bind_of_ok hread).trans (Run.bind_of_ok hcount))

theorem update_accounted (hslow : rate ≤ mainFreq) (ht : t.Early) (hle : last.ticks ≤ t.ticks) :
    update t (accounted rate last) = .ok () (accounted rate t) := by
  have hearly : t.ticks < 9223372036854775808 := ht
  have hlast : last.Early := Nat.lt_of_le_of_lt hle ht
  have hlater := Instant.later_of_le ht.ne_asap hlast.ne_asap
    (Instant.le_of_ticks_le ht.ne_asap hle)
  have hupdate : update t (sampled .zero rate last) = .ok () (sampled .zero rate (last.later t)) :=
    update_sampled hslow hlast.ne_asap ht.ne_asap (Nat.zero_le _) (by omega)
  rwa [hlater] at hupdate

/-- Where a sampler stands and what it wants: to be woken at the end of the batch. -/
structure InStep (rate : Nat) (now : Instant) (f : AudioFormat) (a : AudioSampler)
    (wanted : List Request) : Prop where
  usable : f.Usable rate
  accounted : a = accounted rate a.last
  last_le : a.last.ticks ≤ now.ticks
  wanted : ∃ n, wanted = [⟨.wrap ((n + 1) * f.batchTicks), AudioFormat.batchEnd⟩] ∧
    n * f.batchTicks ≤ now.ticks

theorem eq_of_new_eq_ok (h : AudioSampler.new now rate = .ok a) : a = sampled now rate now := by
  obtain ⟨c, hc, ha⟩ := Attempt.bind_eq_ok.mp h
  rw [RateConverter.ofMaster, RateConverter.new] at hc
  split at hc
  · cases hc
  · cases hc
    cases ha
    rw [sampled, Nat.sub_self, Nat.zero_mul, Nat.zero_mod, Nat.zero_div]

theorem inStep_of_new {batch : Nat} (hpos : 0 < batch) (hlt : batch < UInt64.size)
    (ha : AudioSampler.new .zero rate = .ok a) (hf : AudioFormat.new rate batch = .ok f)
    (hend : f.endOfBatch .zero = .ok r) : InStep rate .zero f a [r] ∧ .zero < r.time := by
  have ha' : a = accounted rate .zero := eq_of_new_eq_ok ha
  subst ha'
  have husable := AudioFormat.usable_of_new hpos hlt hf hend
  have hzero : Instant.zero.ticks = 0 * f.batchTicks := (Nat.zero_mul _).symm
  have hlt := husable.lt_endOfBatch hend Instant.early_zero hzero
  obtain ⟨rfl, -⟩ := husable.endOfBatch hend hzero
  exact ⟨⟨husable, rfl, Nat.le_refl _, 0, rfl, Nat.le_of_eq hzero.symm⟩, hlt⟩

namespace InStep

theorem later (h : InStep rate now f a wanted) (hle : now.ticks ≤ t.ticks) :
    InStep rate t f a wanted := by
  obtain ⟨n, hwanted, hn⟩ := h.wanted
  exact ⟨h.usable, h.accounted, Nat.le_trans h.last_le hle, n, hwanted, Nat.le_trans hn hle⟩

theorem length_le (h : InStep rate now f a wanted) : wanted.length ≤ 1 := by
  obtain ⟨n, hwanted, -⟩ := h.wanted
  rw [hwanted]
  exact Nat.le_refl 1

theorem update (h : InStep rate t f a wanted) (ht : t.Early)
    (hu : AudioSampler.update t a = .ok () a') :
    a' = AudioSampler.accounted rate t ∧ InStep rate t f a' wanted := by
  rw [h.accounted, update_accounted h.usable.slow ht h.last_le] at hu
  cases hu
  exact ⟨rfl, h.usable, rfl, Nat.le_refl _, h.wanted⟩

theorem wake (h : InStep rate t f a wanted) (ht : t.Early) (hr : r ∈ wanted)
    (htime : r.time = .asap ∨ r.time = t) (hend : f.endOfBatch t = .ok q) :
    InStep rate t f a [q] ∧ t < q.time := by
  obtain ⟨n, hwanted, hn⟩ := h.wanted
  rw [hwanted, List.mem_singleton] at hr
  rw [hr] at htime
  have hbatch := f.batchTicks_lt
  have hearly : t.ticks < 9223372036854775808 := ht
  have hword : UInt64.size = 18446744073709551616 := rfl
  have hsucc : (n + 1) * f.batchTicks = n * f.batchTicks + f.batchTicks := Nat.succ_mul _ _
  have hnow : Instant.wrap ((n + 1) * f.batchTicks) = t :=
    htime.resolve_left (Instant.wrap_ne_asap (by omega))
  have hticks : t.ticks = (n + 1) * f.batchTicks := by
    rw [← hnow, Instant.wrap_ticks (by omega)]
  have hlt := h.usable.lt_endOfBatch hend ht hticks
  obtain ⟨rfl, -⟩ := h.usable.endOfBatch hend hticks
  exact ⟨⟨h.usable, h.accounted, h.last_le, n + 1, rfl, Nat.le_of_eq hticks.symm⟩, hlt⟩

end InStep
end AudioSampler
end Timebase
