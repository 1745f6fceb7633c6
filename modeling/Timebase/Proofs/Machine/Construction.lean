import Timebase.Proofs.Machine.Report
import Timebase.Proofs.Rates
import Timebase.Proofs.Time.Operators

/-!
# Which machines can be built

A machine is built of a configuration, or an error that is true of the configuration says why not.
The exception is a batch of sound whose size takes all of 64 bits: it is read as a negative number,
so that the first batch would end before time begins.
-/

namespace Timebase

namespace Clock

variable {freq : Nat}

theorem new_of_slow (hpos : 0 < freq) (hle : freq ≤ mainFreq) (t : Instant) :
    new t freq = .ok ⟨t, 0, freq, 1⟩ :=
  setRatio_eq_ok.mpr ⟨.fixed ⟨hpos, hle⟩ t, t, time_reset ⟨t, 0, 1, 1⟩ t, rfl⟩

theorem new_of_high (hhigh : mainFreq < freq) (t : Instant) :
    new t freq = Attempt.refuseTime (.frequencyTooHigh freq) := by
  have hpos : ¬ (freq = 0 ∨ 1 = 0) := by omega
  rw [new, setFreq, setRatio, if_neg hpos, Nat.div_one, if_pos hhigh]

end Clock

namespace Span

variable {freq : Nat}

theorem ticks_wrap (n : Int) : (wrap n).ticks = Int.bmod n UInt64.size := rfl

theorem checked_cases (n : Int) :
    (∃ d, checked n = .ok d ∧ d.ticks = n) ∨
      checked n = Attempt.refuseTime .overflow ∧
        ¬ (-9223372036854775808 ≤ n ∧ n ≤ 9223372036854775807) := by
  by_cases h : -9223372036854775808 ≤ n ∧ n ≤ 9223372036854775807
  · exact Or.inl ⟨⟨n, h.1, h.2⟩, by rw [checked, ofTicks?, dif_pos h], rfl⟩
  · exact Or.inr ⟨by rw [checked, ofTicks?, dif_neg h], h⟩

theorem periodChecked_of_slow (hpos : 0 < freq) (hle : freq ≤ mainFreq) :
    ∃ d, periodChecked freq = .ok d ∧ d.ticks = (mainFreq / freq : Nat) := by
  have hmain : mainFreq = 3436363200 := rfl
  have hquotient : mainFreq / freq ≤ mainFreq := Nat.div_le_self _ _
  have hsome : 0 < mainFreq / freq := Nat.div_pos hle hpos
  refine ⟨wrap (mainFreq / freq : Nat), ?_, wrap_of_range (by omega) (by omega)⟩
  rw [periodChecked, if_neg (by omega), if_neg (by omega), period, if_neg (by omega)]

theorem periodChecked_of_high (hhigh : mainFreq < freq) :
    periodChecked freq = Attempt.refuseTime (.frequencyTooHigh freq) := by
  rw [periodChecked, if_neg (by omega), if_pos hhigh]

end Span

namespace AudioFormat

variable {rate batch : Nat} {f : AudioFormat}

theorem new_cases (hpos : 0 < rate) (hle : rate ≤ mainFreq) (batch : Nat) :
    (∃ f, AudioFormat.new rate batch = .ok f ∧
      f.batchPeriod.ticks = (mainFreq / rate : Nat) * Int.bmod batch UInt64.size) ∨
      AudioFormat.new rate batch = Attempt.refuseTime .overflow ∧
        ¬ (-9223372036854775808 ≤ (mainFreq / rate : Nat) * Int.bmod batch UInt64.size ∧
          (mainFreq / rate : Nat) * Int.bmod batch UInt64.size ≤ 9223372036854775807) := by
  obtain ⟨period, hperiod, hticks⟩ := Span.periodChecked_of_slow hpos hle
  simp only [AudioFormat.new, hperiod, bind, Except.bind, Span.multiplyChecked, ← hticks]
  rcases Span.checked_cases (period.ticks * Int.bmod batch UInt64.size) with
    ⟨span, hspan, hexact⟩ | ⟨hrefused, hout⟩
  · rw [hspan]
    exact Or.inl ⟨_, rfl, hexact⟩
  · rw [hrefused]
    exact Or.inr ⟨rfl, hout⟩

theorem new_of_high (hhigh : mainFreq < rate) (batch : Nat) :
    AudioFormat.new rate batch = Attempt.refuseTime (.frequencyTooHigh rate) := by
  rw [AudioFormat.new, Span.periodChecked_of_high hhigh]
  rfl

theorem endOfBatch_zero_of_nonneg (h : 0 ≤ f.batchPeriod.ticks) :
    ∃ r, f.endOfBatch .zero = .ok r ∧ (r.time.ticks : Int) = f.batchPeriod.ticks := by
  have hgreatest := f.batchPeriod.greatest
  have hzero : Instant.zero.ticks = 0 := rfl
  have hsize : (UInt64.size : Int) = 18446744073709551616 := rfl
  rcases Instant.add_cases (t := .zero) (by decide) f.batchPeriod with ⟨t, ht, hticks⟩ | ⟨-, hout⟩
  · refine ⟨⟨t, batchEnd⟩, ?_, by simpa [hzero] using hticks⟩
    rw [endOfBatch, ht]
    rfl
  · omega

theorem endOfBatch_zero_of_neg (h : f.batchPeriod.ticks < 0) :
    f.endOfBatch .zero = Attempt.violate .instantOutOfRange := by
  have hzero : Instant.zero.ticks = 0 := rfl
  rcases Instant.add_cases (t := .zero) (by decide) f.batchPeriod with
    ⟨t, -, hticks⟩ | ⟨hviolated, -⟩
  · omega
  · rw [endOfBatch, hviolated]
    rfl

end AudioFormat

namespace MachineConfig

/-- Master ticks of a batch of sound. -/
def batchLength (c : MachineConfig) : Nat := mainFreq / c.sampleRate * c.audioBatch

/-- All rates and sizes are some, no rate is above that of the master clock, and a batch of sound
fits into a span. -/
structure CanBeHonoured (c : MachineConfig) : Prop where
  valid : c.validate = .ok ()
  cpuFreq : c.cpuFreq ≤ mainFreq
  baud : c.baud ≤ mainFreq
  sampleRate : c.sampleRate ≤ mainFreq
  batch : c.batchLength < 9223372036854775808

/-- The size of a batch comes out negative, and its length is no less than the least span. -/
structure BatchReadNegative (c : MachineConfig) : Prop where
  valid : c.validate = .ok ()
  baud : c.baud ≤ mainFreq
  sampleRate : c.sampleRate ≤ mainFreq
  large : 9223372036854775808 ≤ c.audioBatch
  fits : mainFreq / c.sampleRate * (UInt64.size - c.audioBatch) ≤ 9223372036854775808

/-- What is wrong with a configuration. -/
inductive Faulty (c : MachineConfig) : Refusal → Prop where
  | zeroRate (h : c.cpuFreq = 0 ∨ c.baud = 0 ∨ c.sampleRate = 0) : Faulty c .zeroRate
  | zeroAmount (h : c.cyclesPerInstr = 0 ∨ c.audioBatch = 0) : Faulty c .zeroAmount
  | tooHigh {freq : Nat} (h : freq = c.baud ∨ freq = c.sampleRate ∨ freq = c.cpuFreq)
      (high : mainFreq < freq) : Faulty c (.time (.frequencyTooHigh freq))
  | longBatch (h : 9223372036854775808 ≤ c.batchLength) : Faulty c (.time .overflow)

theorem pos_rates_of_validate {c : MachineConfig} (h : c.validate = .ok ()) :
    0 < c.cpuFreq ∧ 0 < c.baud ∧ 0 < c.sampleRate := by
  rw [validate] at h
  split at h
  · cases h
  · omega

theorem validate_cases (c : MachineConfig) :
    c.validate = .ok () ∨ ∃ cause, c.validate = Attempt.refuse cause ∧ c.Faulty cause := by
  rw [validate]
  split
  · rename_i hrates
    exact Or.inr ⟨_, rfl, .zeroRate hrates⟩
  · split
    · rename_i hamounts
      exact Or.inr ⟨_, rfl, .zeroAmount hamounts⟩
    · exact Or.inl rfl

theorem long_of_large {c : MachineConfig} (hslow : c.sampleRate ≤ mainFreq)
    (hpos : 0 < c.sampleRate) (hlarge : 9223372036854775808 ≤ c.audioBatch) :
    9223372036854775808 ≤ c.batchLength :=
  Nat.le_trans hlarge (Nat.le_mul_of_pos_left _ (Nat.div_pos hslow hpos))

/-- The length of a batch in signed arithmetic: a size in the upper half comes out negative. -/
theorem signedLength_cases {c : MachineConfig} (hslow : c.sampleRate ≤ mainFreq)
    (hpos : 0 < c.sampleRate) (hfits : c.audioBatch < UInt64.size) :
    (c.audioBatch < 9223372036854775808 ∧
      (mainFreq / c.sampleRate : Nat) * Int.bmod c.audioBatch UInt64.size = c.batchLength) ∨
      9223372036854775808 ≤ c.audioBatch ∧
        (mainFreq / c.sampleRate : Nat) * Int.bmod c.audioBatch UInt64.size =
          -(mainFreq / c.sampleRate * (UInt64.size - c.audioBatch) : Nat) ∧
        0 < mainFreq / c.sampleRate * (UInt64.size - c.audioBatch) := by
  have hperiod : 0 < mainFreq / c.sampleRate := Nat.div_pos hslow hpos
  have hread := Span.ticks_wrap c.audioBatch
  rcases Nat.lt_or_ge c.audioBatch 9223372036854775808 with hsmall | hlarge
  · have hsize : (Span.wrap c.audioBatch).ticks = c.audioBatch :=
      Span.wrap_of_range (by omega) (by omega)
    exact Or.inl ⟨hsmall, by rw [← hread, hsize, batchLength, Int.natCast_mul]⟩
  · have hsize : (Span.wrap c.audioBatch).ticks = c.audioBatch - UInt64.size :=
      Span.wrap_of_upper (by omega) (by omega)
    refine Or.inr ⟨hlarge, ?_, Nat.mul_pos hperiod (by omega)⟩
    rw [← hread, hsize, Int.natCast_mul, Int.ofNat_sub (Nat.le_of_lt hfits), ← Int.mul_neg,
      Int.neg_sub]

variable {c : MachineConfig} {cause : Refusal}

theorem BatchReadNegative.long (h : c.BatchReadNegative) : 9223372036854775808 ≤ c.batchLength :=
  long_of_large h.sampleRate (pos_rates_of_validate h.valid).2.2 h.large

theorem CanBeHonoured.not_faulty (h : c.CanBeHonoured) : ¬ c.Faulty cause := by
  have hvalid := h.valid
  intro hfaulty
  cases hfaulty with
  | zeroRate hzero =>
    obtain ⟨hcpu, hbaud, hrate⟩ := pos_rates_of_validate hvalid
    omega
  | zeroAmount hzero =>
    obtain ⟨hcycles, hbatch⟩ := pos_of_validate hvalid
    omega
  | tooHigh hfreq hhigh =>
    have hcpu := h.cpuFreq
    have hbaud := h.baud
    have hrate := h.sampleRate
    omega
  | longBatch hlong => exact absurd h.batch (Nat.not_lt.mpr hlong)

end MachineConfig

namespace Machine

variable {c : MachineConfig}

theorem frames_ready (v : VideoStandard) :
    ∃ frames r s, FrameTimer.new .zero v.frameRate.1 v.frameRate.2 = .ok (frames, r) ∧
      Scheduler.new.register r.time Peripherals.framesId r.tag = .ok s := by
  cases v with
  | ntsc => exact ⟨_, _, _, rfl, rfl⟩
  | pal => exact ⟨_, _, _, rfl, rfl⟩

theorem register_at_zero {s : Scheduler} (h : s.currentTime = .zero) (t : Instant)
    (device : DeviceId) (tag : Tag) :
    ∃ s', s.register t device tag = .ok s' ∧ s'.currentTime = .zero := by
  have hkept : t = .asap ∨ s.currentTime ≤ t := by
    by_cases ht : t = .asap
    · exact Or.inl ht
    · exact Or.inr (h ▸ Instant.le_of_ticks_le ht (Nat.zero_le _))
  obtain ⟨s', hs⟩ : ∃ s', s.register t device tag = .ok s' :=
    ⟨_, Scheduler.register_eq_ok.mpr ⟨hkept, rfl⟩⟩
  exact ⟨s', hs, (Scheduler.sameTime_register hs).currentTime.trans h⟩

theorem powerOn_eq (c : MachineConfig) :
    ∃ finish : Uart → AudioSampler → AudioFormat → Request → Attempt (World Peripherals),
      (powerOn c .new = do
        let uart ← Uart.new .zero c.baud
        let audio ← AudioSampler.new .zero c.sampleRate
        let format ← AudioFormat.new c.sampleRate c.audioBatch
        let first ← format.endOfBatch .zero
        finish uart audio format first) ∧
      ∀ uart audio format first, ∃ w, finish uart audio format first = .ok w := by
  obtain ⟨frames, r, s, hframes, hs⟩ := frames_ready c.video
  have hnow := (Scheduler.sameTime_register hs).currentTime
  refine ⟨fun uart audio format first => do
    let scheduler ← s.register first.time Peripherals.audioId first.tag
    let scheduler ← scheduler.register .asap Peripherals.uartId Uart.start
    return {
      scheduler
      lifetimes := List.replicate 4 ⟨true, 0, true⟩
      skipped := []
      devices := ⟨.new frames, .new (uart.send (Text.toOctets c.message)).2, .new audio, format,
        .new⟩ }, ?_, ?_⟩
  · change (FrameTimer.new .zero c.video.frameRate.1 c.video.frameRate.2 >>= _) = _
    rw [hframes]
    change (Scheduler.new.register r.time Peripherals.framesId r.tag >>= _) = _
    rw [hs]
    rfl
  · intro uart audio format first
    obtain ⟨s₂, hs₂, hnow₂⟩ := register_at_zero hnow first.time Peripherals.audioId first.tag
    obtain ⟨s₃, hs₃, -⟩ := register_at_zero hnow₂ .asap Peripherals.uartId Uart.start
    simp only [hs₂, hs₃, bind, Except.bind]
    exact ⟨_, rfl⟩

theorem audio_ready (hpos : 0 < c.sampleRate) :
    ∃ audio, AudioSampler.new .zero c.sampleRate = .ok audio := by
  rw [AudioSampler.new, RateConverter.ofMaster, RateConverter.new,
    if_neg (not_or.mpr ⟨by decide, Nat.ne_of_gt hpos⟩)]
  exact ⟨_, rfl⟩

/-- Power-on fails for a rate, for the length of a batch, or because that is below zero. -/
theorem powerOn_cases (hvalid : c.validate = .ok ()) (hfits : c.audioBatch < UInt64.size) :
    (c.baud ≤ mainFreq ∧ c.sampleRate ≤ mainFreq ∧ c.batchLength < 9223372036854775808 ∧
      ∃ w, powerOn c .new = .ok w) ∨
      (¬ c.BatchReadNegative ∧ ∃ cause, powerOn c .new = Attempt.refuse cause ∧ c.Faulty cause) ∨
      c.BatchReadNegative ∧ powerOn c .new = Attempt.violate .instantOutOfRange := by
  obtain ⟨finish, heq, hfinish⟩ := powerOn_eq c
  obtain ⟨-, hbaud, hrate⟩ := MachineConfig.pos_rates_of_validate hvalid
  obtain ⟨audio, haudio⟩ := audio_ready hrate
  rcases Nat.lt_or_ge mainFreq c.baud with hhigh | hbaudSlow
  · refine Or.inr (Or.inl ⟨fun h => absurd h.baud (Nat.not_le.mpr hhigh), _, ?_,
      .tooHigh (Or.inl rfl) hhigh⟩)
    rw [heq, Uart.new, Clock.new_of_high hhigh]
    rfl
  have huart : Uart.new .zero c.baud =
      .ok ⟨⟨.zero, 0, c.baud, 1⟩, [], 0, 0, false, 0, .listening⟩ := by
    rw [Uart.new, Clock.new_of_slow hbaud hbaudSlow]
    rfl
  simp only [huart, haudio, bind, Except.bind] at heq
  rcases Nat.lt_or_ge mainFreq c.sampleRate with hhigh | hslow
  · refine Or.inr (Or.inl ⟨fun h => absurd h.sampleRate (Nat.not_le.mpr hhigh), _, ?_,
      .tooHigh (Or.inr (Or.inl rfl)) hhigh⟩)
    rw [heq, AudioFormat.new_of_high hhigh]
    rfl
  have hlength := MachineConfig.signedLength_cases hslow hrate hfits
  rcases AudioFormat.new_cases hrate hslow c.audioBatch with
    ⟨format, hformat, hticks⟩ | ⟨hformat, hout⟩
  · have hleast := format.batchPeriod.least
    have hgreatest := format.batchPeriod.greatest
    simp only [hformat] at heq
    -- A product that fits may still have the wrong sign.
    rcases hlength with ⟨hsmall, hexact⟩ | ⟨hlarge, hexact, hsome⟩
    · obtain ⟨first, hfirst, -⟩ := AudioFormat.endOfBatch_zero_of_nonneg (f := format) (by omega)
      simp only [hfirst] at heq
      rw [heq]
      exact Or.inl ⟨hbaudSlow, hslow, by omega, hfinish _ _ _ _⟩
    · have hend := AudioFormat.endOfBatch_zero_of_neg (f := format) (by omega)
      refine Or.inr (Or.inr ⟨⟨hvalid, hbaudSlow, hslow, hlarge, by omega⟩, ?_⟩)
      rw [heq, hend]
      rfl
  · simp only [hformat] at heq
    refine Or.inr (Or.inl ⟨?_, _, heq, .longBatch ?_⟩)
    · intro h
      have hlarge := h.large
      have hshort := h.fits
      omega
    · rcases hlength with ⟨-, hexact⟩ | ⟨hlarge, -⟩
      · omega
      · exact MachineConfig.long_of_large hslow hrate hlarge

theorem cpu_cases (hpos : 0 < c.cpuFreq) (t : Instant) :
    (c.cpuFreq ≤ mainFreq ∧ ∃ cpu, DemoCpu.new t c.cpuFreq c.cyclesPerInstr = .ok cpu) ∨
      mainFreq < c.cpuFreq ∧ DemoCpu.new t c.cpuFreq c.cyclesPerInstr =
        Attempt.refuseTime (.frequencyTooHigh c.cpuFreq) := by
  rcases Nat.lt_or_ge mainFreq c.cpuFreq with hhigh | hslow
  · refine Or.inr ⟨hhigh, ?_⟩
    rw [DemoCpu.new, Clock.new_of_high hhigh]
    rfl
  · refine Or.inl ⟨hslow, ?_⟩
    rw [DemoCpu.new, Clock.new_of_slow hpos hslow]
    exact ⟨_, rfl⟩

theorem new_cases (hfits : c.audioBatch < UInt64.size) :
    (c.CanBeHonoured ∧ ∃ m, new c = .ok m) ∨
      (¬ c.BatchReadNegative ∧ ∃ cause, new c = Attempt.refuse cause ∧ c.Faulty cause) ∨
      c.BatchReadNegative ∧ new c = Attempt.violate .instantOutOfRange := by
  rw [new]
  rcases c.validate_cases with hvalid | ⟨cause, hvalid, hfaulty⟩
  · simp only [hvalid, bind, Except.bind]
    rcases powerOn_cases hvalid hfits with ⟨hbaud, hrate, hbatch, w, hw⟩ |
      ⟨hproper, cause, hrefused, hfaulty⟩ | ⟨hnegative, hviolated⟩
    · simp only [hw]
      have hpos := (MachineConfig.pos_rates_of_validate hvalid).1
      rcases cpu_cases hpos w.scheduler.currentTime with ⟨hslow, cpu, hcpu⟩ | ⟨hhigh, hcpu⟩
      · rw [hcpu]
        exact Or.inl ⟨⟨hvalid, hslow, hbaud, hrate, hbatch⟩, _, rfl⟩
      · rw [hcpu]
        refine Or.inr (Or.inl ⟨fun h => ?_, _, rfl, .tooHigh (Or.inr (Or.inr rfl)) hhigh⟩)
        exact absurd hbatch (Nat.not_lt.mpr h.long)
    · rw [hrefused]
      exact Or.inr (Or.inl ⟨hproper, cause, rfl, hfaulty⟩)
    · rw [hviolated]
      exact Or.inr (Or.inr ⟨hnegative, rfl⟩)
  · rw [hvalid]
    refine Or.inr (Or.inl ⟨fun h => ?_, cause, rfl, hfaulty⟩)
    rw [h.valid] at hvalid
    cases hvalid

/-- Building a machine succeeds exactly for what can be honoured, and an error is true of the
configuration. A contract breaks exactly where the size of a batch comes out negative. -/
structure BuiltOrTold (c : MachineConfig) : Prop where
  built_iff : (∃ m, new c = .ok m) ↔ c.CanBeHonoured
  told_iff : (∃ cause, new c = Attempt.refuse cause) ↔ ¬ c.CanBeHonoured ∧ ¬ c.BatchReadNegative
  told : ∀ cause, new c = Attempt.refuse cause → c.Faulty cause
  broken_iff : (∃ cause, new c = Attempt.violate cause) ↔ c.BatchReadNegative
  broken : ∀ cause, new c = Attempt.violate cause → cause = .instantOutOfRange

theorem machines_are_built_or_told_why (hc : c.Fits) : BuiltOrTold c := by
  rcases new_cases hc.audioBatch with ⟨hgood, m, hm⟩ | ⟨hproper, cause, hrefused, hfaulty⟩ |
    ⟨hnegative, hviolated⟩
  · have hproper : ¬ c.BatchReadNegative := fun h => absurd hgood.batch (Nat.not_lt.mpr h.long)
    have hnot (cause : Fault) : new c ≠ .error cause := by
      intro h
      cases hm.symm.trans h
    refine ⟨iff_of_true ⟨m, hm⟩ hgood, ?_, ?_, ?_, ?_⟩
    · exact iff_of_false (fun ⟨_, h⟩ => hnot _ h) (fun h => h.1 hgood)
    · exact fun _ h => absurd h (hnot _)
    · exact iff_of_false (fun ⟨_, h⟩ => hnot _ h) hproper
    · exact fun _ h => absurd h (hnot _)
  · have hbad : ¬ c.CanBeHonoured := fun h => h.not_faulty hfaulty
    have hnot (cause : Violation) : new c ≠ Attempt.violate cause := by
      intro h
      cases hrefused.symm.trans h
    refine ⟨?_, iff_of_true ⟨cause, hrefused⟩ ⟨hbad, hproper⟩, ?_, ?_, ?_⟩
    · exact iff_of_false (fun ⟨_, h⟩ => (by cases hrefused.symm.trans h)) hbad
    · intro _ h
      cases hrefused.symm.trans h
      exact hfaulty
    · exact iff_of_false (fun ⟨_, h⟩ => hnot _ h) hproper
    · exact fun _ h => absurd h (hnot _)
  · have hbad : ¬ c.CanBeHonoured := fun h => absurd h.batch (Nat.not_lt.mpr hnegative.long)
    have hnot (cause : Refusal) : new c ≠ Attempt.refuse cause := by
      intro h
      cases hviolated.symm.trans h
    refine ⟨?_, ?_, ?_, iff_of_true ⟨_, hviolated⟩ hnegative, ?_⟩
    · exact iff_of_false (fun ⟨_, h⟩ => (by cases hviolated.symm.trans h)) hbad
    · exact iff_of_false (fun ⟨_, h⟩ => hnot _ h) (fun h => h.2 hnegative)
    · exact fun _ h => absurd h (hnot _)
    · intro _ h
      cases hviolated.symm.trans h
      rfl

/-- The longest batch of all, at the rate of the master clock. -/
theorem machines_are_built_or_told_why_longest_batch : ∃ c : MachineConfig,
    c.sampleRate = mainFreq ∧ c.audioBatch = 9223372036854775807 ∧ BuiltOrTold c ∧
      ∃ m, new c = .ok m := by
  let c : MachineConfig :=
    { MachineConfig.default with sampleRate := mainFreq, audioBatch := 9223372036854775807 }
  have hc : c.Fits := ⟨by decide, by decide, by decide, by decide, by decide, by decide, by decide⟩
  have hbuilt := machines_are_built_or_told_why hc
  exact ⟨c, rfl, rfl, hbuilt,
    hbuilt.built_iff.mpr ⟨rfl, by decide, by decide, by decide, by decide⟩⟩

/-- A size of all ones is read as minus one. The configuration is accepted, and no machine built. -/
theorem no_machine_for_largest_batch :
    ∃ c : MachineConfig, c = { MachineConfig.default with audioBatch := 18446744073709551615 } ∧
      c.Fits ∧ c.validate = .ok () ∧ ¬ c.CanBeHonoured ∧
      new c = Attempt.violate .instantOutOfRange := by
  let c : MachineConfig := { MachineConfig.default with audioBatch := 18446744073709551615 }
  have hc : c.Fits := ⟨by decide, by decide, by decide, by decide, by decide, by decide, by decide⟩
  have hnegative : c.BatchReadNegative := ⟨rfl, by decide, by decide, by decide, by decide⟩
  refine ⟨c, rfl, hc, rfl, fun h => absurd h.batch (Nat.not_lt.mpr hnegative.long), ?_⟩
  rcases new_cases hc.audioBatch with ⟨hgood, -⟩ | ⟨hproper, -⟩ | ⟨-, hviolated⟩
  · exact absurd hgood.batch (Nat.not_lt.mpr hnegative.long)
  · exact absurd hnegative hproper
  · exact hviolated

end Machine
end Timebase
