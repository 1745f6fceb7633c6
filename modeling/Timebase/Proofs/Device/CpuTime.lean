import Timebase.Proofs.Device.DemoCpu
import Timebase.Proofs.Turns

/-!
# Time that never goes back

A step of the CPU may break off when its clock has already gone on. From then on the emulator does
not follow that clock any more, but still adds up how far it goes. However its steps come out, the
time of the emulator never goes back.
-/

namespace Timebase.DemoCpu

open Clock (grid fromPowerOn Accepted)

variable {freq budget perInstr : Nat} {e : Emulator DemoCpu} {cpu : DemoCpu}

/-- A CPU whose clock has run since power-on at its rate, and whose instructions take some cycles. -/
structure Running (freq perInstr : Nat) (cpu : DemoCpu) : Prop where
  clock : cpu.clock = fromPowerOn freq 1 cpu.clock.count
  cycles : cpu.cyclesPerInstr = perInstr

/-- A step of the CPU that breaks off leaves a clock as it might be after one that does not. -/
theorem preserves_tick (budget : Nat) : Run.Preserves (Running freq perInstr) (tick budget) := by
  refine .bind (.read _) fun start => .bind (.lift _) fun target => .bind (.read _) fun cycles => ?_
  refine .bind (fun _ h => h) fun cpu => .bind (.update ?_) fun _ => .bind (.update ?_) fun _ =>
    .bind (.read _) fun reached => .bind (.lift _) fun _ _ h => h
  · intro cpu cpu' hforward h
    obtain ⟨ticks, -, hforward⟩ := Attempt.bind_eq_ok.mp hforward
    obtain ⟨clock, hclock, hcpu'⟩ := Attempt.bind_eq_ok.mp hforward
    cases hcpu'
    rw [h.clock] at hclock
    cases Clock.forward_fromPowerOn hclock
    exact ⟨rfl, h.cycles⟩
  · intro cpu cpu' hcount h
    obtain ⟨instructions, -, hcpu'⟩ := Attempt.bind_eq_ok.mp hcount
    cases hcpu'
    exact ⟨h.clock, h.cycles⟩

/-- What is known of the time of an emulator whose CPU need not be in step with it. Once some time
has passed, an instruction is known not to look like a step back: in 64 bits it takes less than half
of the count, or just that much, and then there has been one instruction only. -/
structure Forth (freq perInstr : Nat) (e : Emulator DemoCpu) : Prop where
  rate : Accepted freq 1
  pos : 0 < perInstr
  running : Running freq perInstr e.cpu
  finite : e.time.isFinite = true
  forth : e.time.ticks = 0 ∨ grid freq 1 perInstr % UInt64.size < 9223372036854775808 ∧
    (grid freq 1 perInstr % UInt64.size = 9223372036854775807 → e.time.ticks = 9223372036854775807)

theorem InStep.toForth (h : InStep freq e) (hfinite : e.time.isFinite = true) :
    Forth freq e.cpu.cyclesPerInstr e := by
  refine ⟨h.rate, h.cycles, ⟨h.clock, rfl⟩, hfinite, h.forth.imp_left fun hcount => ?_⟩
  rw [h.time, hcount, Clock.grid_zero]
  rfl

/-- The arithmetic of a step of the clock from `g` to `g'`, where an instruction takes `p`: what is
told of it in 64 bits, `d`, takes time from `t` to `t'`, which is no step back. -/
private theorem told_no_step_back {g g' p k t t' : Nat} {d : Int}
    (hd : d % UInt64.size =
      (((g' % UInt64.size : Nat) : Int) - (g % UInt64.size : Nat)) % UInt64.size)
    (hleast : -9223372036854775808 ≤ d) (hgreatest : d ≤ 9223372036854775807)
    (ht : (t' : Int) = t + d) (hfinite : t' < UInt64.size - 2) (hle : g + p ≤ g')
    (hone : k = 1 → g' ≤ g + p + 1)
    (hwithin : k = 1 ∨ g' ≤ g % UInt64.size + 9223372036854775807)
    (hforth : t = 0 ∨ p % UInt64.size < 9223372036854775808 ∧
      (p % UInt64.size = 9223372036854775807 → t = 9223372036854775807)) :
    t ≤ t' ∧ (t' = 0 ∨ p % UInt64.size < 9223372036854775808 ∧
      (p % UInt64.size = 9223372036854775807 → t' = 9223372036854775807)) := by
  simp only [UInt64.size] at *
  rcases hwithin with hk | hfits
  · -- an instruction takes `p` or `p + 1`; of these only `2 ^ 63` is told as a step back, and it
    -- would end before power-on
    have hnear := hone hk
    omega
  · -- the budget of a step is less than half of the count, so what is told of it is exact
    have hexact : d = (g' : Int) - g := by omega
    omega

theorem Ticked.ends {n used k : Nat} {cpu' : DemoCpu} (h : Ticked freq n budget used k cpu cpu')
    (hpos : 0 < cpu.cyclesPerInstr) :
    k = 1 ∨ grid freq 1 (n + k * cpu.cyclesPerInstr) ≤
      grid freq 1 n % UInt64.size + 9223372036854775807 := by
  rcases h.within hpos with hk | ⟨target, htarget, hend⟩
  · exact .inl hk
  · obtain ⟨-, -, hsum⟩ := Instant.addChecked_eq_ok htarget
    have hgreatest := (Span.wrap (budget : Int)).greatest
    have hstart : (Instant.wrap (grid freq 1 n)).ticks = grid freq 1 n % UInt64.size := rfl
    rw [hstart] at hsum
    generalize (Span.wrap (budget : Int)).ticks = most at hsum hgreatest
    exact .inr (by omega)

namespace Forth

theorem of_cpu (h : Forth freq perInstr e) (hcpu : Running freq perInstr cpu) :
    Forth freq perInstr { e with cpu } := ⟨h.rate, h.pos, hcpu, h.finite, h.forth⟩

theorem runCpu_ok {e' : Emulator DemoCpu} (h : Forth freq perInstr e)
    (hrun : Emulator.runCpu tick budget e = .ok () e') :
    Forth freq perInstr e' ∧ e.time ≤ e'.time := by
  obtain ⟨used, htick, -, hsum⟩ := Emulator.runCpu_eq_ok hrun
  have hcycles := h.running.cycles
  obtain ⟨k, hticked⟩ := tick_eq_ok h.rate h.running.clock htick
  have hbudget := hticked.ends (hcycles.symm ▸ h.pos)
  obtain ⟨hk, hclock, hcycles', -, -, d, hd, rfl⟩ := hticked
  rw [hcycles] at hclock hcycles' hbudget hd
  obtain ⟨-, -, hspan⟩ := Instant.since_eq_ok hd
  rw [Span.wrap_ofInt] at hsum
  obtain ⟨hstart, hfinite, hticks⟩ := Instant.addChecked_eq_ok hsum
  have hinstr : grid freq 1 perInstr ≤ grid freq 1 (k * perInstr) :=
    Clock.grid_mono (Nat.le_mul_of_pos_left _ hk)
  have hle : grid freq 1 e.cpu.clock.count + grid freq 1 (k * perInstr) ≤
      grid freq 1 (e.cpu.clock.count + k * perInstr) := Clock.grid_add_le _ _
  have hone : k = 1 → grid freq 1 (e.cpu.clock.count + k * perInstr) ≤
      grid freq 1 e.cpu.clock.count + grid freq 1 perInstr + 1 := by
    rintro rfl
    rw [Nat.one_mul]
    exact Clock.grid_le_add h.rate.num_pos _ _
  have hdiff : d.ticks % UInt64.size =
      (((Instant.wrap (grid freq 1 (e.cpu.clock.count + k * perInstr))).ticks : Int) -
        (Instant.wrap (grid freq 1 e.cpu.clock.count)).ticks) % UInt64.size := by
    rw [hspan, Span.wrap_emod]
  obtain ⟨hforward, hforth⟩ := told_no_step_back hdiff d.least d.greatest hticks
    (Instant.lt_never_of_isFinite hfinite) (by omega) hone hbudget h.forth
  refine ⟨⟨h.rate, h.pos, ⟨?_, hcycles'⟩, hfinite, hforth⟩, ?_⟩
  · rw [hclock]
    rfl
  · exact Instant.le_of_ticks_le (Instant.ne_asap_of_isFinite hfinite) hforward

theorem runCpu (h : Forth freq perInstr e) (budget : Nat) :
    Forth freq perInstr ((Emulator.runCpu tick budget).after e) ∧
      e.time ≤ ((Emulator.runCpu tick budget).after e).time := by
  have htold : Running freq perInstr ((tick (max budget 1)).after e.cpu) :=
    preserves_tick _ _ h.running
  rcases Emulator.runCpu_cases tick budget e with
    ⟨halt, cpu, htick, hrun⟩ | ⟨cpu, htick, hrun⟩ | ⟨used, cpu, cause, htick, -, -, hrun⟩ |
    ⟨used, cpu, time, -, -, -, hrun⟩
  · rw [Run.after_of_error htick] at htold
    rw [Run.after_of_error hrun]
    exact ⟨h.of_cpu htold, Instant.le_refl _⟩
  · rw [Run.after_of_ok htick] at htold
    rw [Run.after_of_error hrun]
    exact ⟨h.of_cpu htold, Instant.le_refl _⟩
  · rw [Run.after_of_ok htick] at htold
    rw [Run.after_of_error hrun]
    exact ⟨h.of_cpu htold, Instant.le_refl _⟩
  · rw [Run.after_of_ok hrun]
    exact h.runCpu_ok hrun

end Forth
end Timebase.DemoCpu
