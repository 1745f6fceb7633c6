import Timebase.Device.DemoCpu
import Timebase.Proofs.Drift
import Timebase.Proofs.Emulator

/-!
# A CPU in step with its emulator

The demo CPU tells how long it took by the instants of its own clock, in 64 bits. Its emulator
follows that clock. An instruction may take so long that its ticks do not fit; even so the time of
the emulator never goes back.
-/

namespace Timebase

namespace Clock

variable {num den n m : Nat}

theorem grid_add_le (n m : Nat) : grid num den n + grid num den m ≤ grid num den (n + m) := by
  rw [grid, grid, grid, Nat.add_mul]
  exact Nat.div_add_div_le_add_div

theorem grid_le_add (hpos : 0 < num) (n m : Nat) :
    grid num den (n + m) ≤ grid num den n + grid num den m + 1 := by
  rw [grid, grid, grid, Nat.add_mul, Nat.add_div hpos]
  split <;> omega

theorem grid_of_ticksTill (h : Accepted num den) {t : Instant} {cycles : Nat}
    (htill : (fromPowerOn num den n).ticksTill t = .ok cycles) (hm : m ≤ cycles) (hpos : 0 < m) :
    grid num den (n + m) ≤ t.ticks := by
  rw [ticksTill] at htill
  split at htill
  · cases htill
    omega
  · cases hlast : (fromPowerOn num den n).lastTick t with
    | error cause =>
      rw [hlast] at htill
      cases htill
    | ok last =>
      rw [hlast] at htill
      have hcycles : last - n = cycles := Except.ok.inj htill
      obtain ⟨_, -, h₁⟩ := Attempt.bind_eq_ok.mp hlast
      obtain ⟨d, hd, h₂⟩ := Attempt.bind_eq_ok.mp h₁
      have hdist : d = t.ticks := by
        rw [Word.subtract] at hd
        split at hd
        · exact (Except.ok.inj hd).symm
        · cases hd
      have hexact : ((d + 1) * num - 1) / (mainFreq * den) % UInt64.size = last := Except.ok.inj h₂
      have hle : n + m ≤ ((d + 1) * num - 1) / (mainFreq * den) := by
        have hmod := Nat.mod_le (((d + 1) * num - 1) / (mainFreq * den)) UInt64.size
        omega
      rw [← hdist]
      exact h.le_last_iff.mp hle

end Clock

namespace DemoCpu

open Clock (grid fromPowerOn Accepted)

variable {freq budget used n : Nat} {cpu cpu' : DemoCpu} {t t' : Instant}

/-- What comes of a budget: the CPU, whose clock stands at tick `n`, executes `k` whole instructions,
either a single one or as many as end within the budget, and answers how far its clock went. -/
structure Ticked (freq n budget used k : Nat) (cpu cpu' : DemoCpu) : Prop where
  some : 0 < k
  clock : cpu'.clock = fromPowerOn freq 1 (n + k * cpu.cyclesPerInstr)
  cycles : cpu'.cyclesPerInstr = cpu.cyclesPerInstr
  instructions : cpu'.instructions = cpu.instructions + k
  within : 0 < cpu.cyclesPerInstr → k = 1 ∨
    ∃ target, (Instant.wrap (grid freq 1 n)).addChecked (.wrap budget) = .ok target ∧
      grid freq 1 (n + k * cpu.cyclesPerInstr) ≤ target.ticks
  told : ∃ d, (Instant.wrap (grid freq 1 (n + k * cpu.cyclesPerInstr))).since
    (.wrap (grid freq 1 n)) = .ok d ∧ used = Word.ofInt d.ticks

theorem tick_eq_ok (h : Accepted freq 1) (hc : cpu.clock = fromPowerOn freq 1 n)
    (htick : tick budget cpu = .ok used cpu') : ∃ k, Ticked freq n budget used k cpu cpu' := by
  obtain ⟨start, cpu, hread, h₁⟩ := Run.bind_eq_ok.mp htick
  obtain ⟨hstart, rfl⟩ := Run.read_eq_ok.mp hread
  rw [hc, Clock.time_fromPowerOn] at hstart
  cases hstart
  obtain ⟨target, cpu, hlift, h₂⟩ := Run.bind_eq_ok.mp h₁
  obtain ⟨htarget, rfl⟩ := Run.lift_eq_ok.mp hlift
  obtain ⟨cycles, cpu, hread, h₃⟩ := Run.bind_eq_ok.mp h₂
  obtain ⟨hcycles, rfl⟩ := Run.read_eq_ok.mp hread
  rw [hc] at hcycles
  obtain ⟨_, _, hget, h₄⟩ := Run.bind_eq_ok.mp h₃
  cases hget
  obtain ⟨_, cpu₁, hforward, h₅⟩ := Run.bind_eq_ok.mp h₄
  obtain ⟨ticks, hticks, h₆⟩ := Attempt.bind_eq_ok.mp (Run.update_eq_ok.mp hforward)
  obtain ⟨clock, hclock, hcpu₁⟩ := Attempt.bind_eq_ok.mp h₆
  cases hcpu₁
  obtain rfl := Word.eq_of_multiply_eq_ok hticks
  rw [hc] at hclock
  cases Clock.forward_fromPowerOn hclock
  obtain ⟨_, cpu₂, hcount, h₇⟩ := Run.bind_eq_ok.mp h₅
  obtain ⟨instructions, hsum, hcpu₂⟩ := Attempt.bind_eq_ok.mp (Run.update_eq_ok.mp hcount)
  cases hcpu₂
  obtain rfl := Word.eq_of_add_eq_ok hsum
  obtain ⟨reached, _, hread, h₈⟩ := Run.bind_eq_ok.mp h₇
  obtain ⟨hreached, rfl⟩ := Run.read_eq_ok.mp hread
  rw [Clock.time_fromPowerOn] at hreached
  cases hreached
  obtain ⟨d, _, hlift, hanswer⟩ := Run.bind_eq_ok.mp h₈
  obtain ⟨hd, rfl⟩ := Run.lift_eq_ok.mp hlift
  cases hanswer
  refine ⟨max (cycles / cpu.cyclesPerInstr) 1, by omega, rfl, rfl, rfl, ?_, d, hd, rfl⟩
  intro hpos
  by_cases hone : cycles / cpu.cyclesPerInstr ≤ 1
  · exact Or.inl (by omega)
  · apply Or.inr
    have hfits : cycles / cpu.cyclesPerInstr * cpu.cyclesPerInstr ≤ cycles := Nat.div_mul_le_self _ _
    rw [Nat.max_eq_left (by omega)]
    exact ⟨target, htarget,
      Clock.grid_of_ticksTill h hcycles hfits (Nat.mul_pos (by omega) hpos)⟩

/-- An emulator whose time is that of the clock of its CPU. Once an instruction has been executed
it is known not to look like a step back: in 64 bits it takes less than half of the count, or just
that much, and then there has been one instruction only. -/
structure InStep (freq : Nat) (e : Emulator DemoCpu) : Prop where
  rate : Accepted freq 1
  clock : e.cpu.clock = fromPowerOn freq 1 e.cpu.clock.count
  cycles : 0 < e.cpu.cyclesPerInstr
  time : e.time = .wrap (grid freq 1 e.cpu.clock.count)
  forth : e.cpu.clock.count = 0 ∨
    grid freq 1 e.cpu.cyclesPerInstr % UInt64.size < 9223372036854775808 ∧
      (grid freq 1 e.cpu.cyclesPerInstr % UInt64.size = 9223372036854775807 →
        e.time.ticks = 9223372036854775807)

theorem inStep_of_new {cyclesPerInstr steps : Nat}
    (h : DemoCpu.new .zero freq cyclesPerInstr = .ok cpu) : InStep freq ⟨cpu, .zero, steps⟩ := by
  obtain ⟨clock, hclock, h⟩ := Attempt.bind_eq_ok.mp h
  cases h
  obtain ⟨rfl, -⟩ := Clock.new_eq_ok hclock
  refine ⟨(Clock.setRatio_eq_ok.mp hclock).1, rfl, Nat.lt_of_lt_of_le Nat.one_pos
    (Nat.le_max_right _ _), ?_, Or.inl rfl⟩
  show Instant.zero = .wrap (grid freq 1 0)
  rw [Clock.grid_zero]
  rfl

/-- The arithmetic of a step from `g` to `g'` in 64 bits, where an instruction takes `p`: what is
told of it, `d`, is no step back. -/
private theorem told_forward {g g' p k s s' t : Nat} {d : Int} (hs : g % UInt64.size = s)
    (hs' : g' % UInt64.size = s') (hd : d % UInt64.size = ((s' : Int) - s) % UInt64.size)
    (hleast : -9223372036854775808 ≤ d) (hgreatest : d ≤ 9223372036854775807)
    (ht : (t : Int) = s + d) (hfinite : t < UInt64.size - 2) (hle : g + p ≤ g')
    (hone : k = 1 → g' ≤ g + p + 1) (hwithin : k = 1 ∨ g' < UInt64.size)
    (hforth : (g = 0 ∧ (k = 1 → g' = p)) ∨ p % UInt64.size < 9223372036854775808 ∧
      (p % UInt64.size = 9223372036854775807 → s = 9223372036854775807)) :
    t = s' ∧ s ≤ s' ∧ p % UInt64.size < 9223372036854775808 ∧
      (p % UInt64.size = 9223372036854775807 → s' = 9223372036854775807) := by
  simp only [UInt64.size] at *
  have hreached : t = s' := by omega
  rcases hwithin with hk | hfits
  · -- of `p` and `p + 1` only `2 ^ 63` is told as a step back, and it would end before the start
    have hnear := hone hk
    omega
  · omega

theorem InStep.runCpu {e e' : Emulator DemoCpu} (h : InStep freq e)
    (hrun : Emulator.runCpu tick budget e = .ok () e') : InStep freq e' ∧ e.time ≤ e'.time := by
  obtain ⟨used, htick, -, hsum⟩ := Emulator.runCpu_eq_ok hrun
  obtain ⟨k, hk, hclock, hcycles, -, hwithin, d, hd, rfl⟩ := tick_eq_ok h.rate h.clock htick
  obtain ⟨-, -, hspan⟩ := Instant.since_eq_ok hd
  rw [Span.wrap_ofInt] at hsum
  obtain ⟨hstart, hfinite, hticks⟩ := Instant.addChecked_eq_ok hsum
  have hlt := Instant.lt_never_of_isFinite hfinite
  have hinstr : grid freq 1 e.cpu.cyclesPerInstr ≤ grid freq 1 (k * e.cpu.cyclesPerInstr) :=
    Clock.grid_mono (Nat.le_mul_of_pos_left _ hk)
  have hle : grid freq 1 e.cpu.clock.count + grid freq 1 (k * e.cpu.cyclesPerInstr) ≤
      grid freq 1 (e.cpu.clock.count + k * e.cpu.cyclesPerInstr) := Clock.grid_add_le _ _
  have hone : k = 1 → grid freq 1 (e.cpu.clock.count + k * e.cpu.cyclesPerInstr) ≤
      grid freq 1 e.cpu.clock.count + grid freq 1 e.cpu.cyclesPerInstr + 1 := by
    rintro rfl
    rw [Nat.one_mul]
    exact Clock.grid_le_add h.rate.num_pos _ _
  have hzero : e.cpu.clock.count = 0 → grid freq 1 e.cpu.clock.count = 0 ∧
      (k = 1 → grid freq 1 (e.cpu.clock.count + k * e.cpu.cyclesPerInstr) =
        grid freq 1 e.cpu.cyclesPerInstr) := by
    intro hcount
    rw [hcount, Nat.zero_add]
    refine ⟨Clock.grid_zero freq 1, ?_⟩
    rintro rfl
    rw [Nat.one_mul]
  have hnow : grid freq 1 e.cpu.clock.count % UInt64.size = e.time.ticks := by
    rw [h.time]
    rfl
  have hdiff : d.ticks % UInt64.size =
      (((Instant.wrap (grid freq 1 (e.cpu.clock.count + k * e.cpu.cyclesPerInstr))).ticks : Int) -
        e.time.ticks) % UInt64.size := by
    rw [hspan, Span.wrap_emod, h.time]
  have hwithin := (hwithin h.cycles).imp_right fun ⟨target, _, hle⟩ =>
    Nat.lt_of_le_of_lt hle target.ticks_lt
  obtain ⟨ht, hforward, hforth⟩ := told_forward hnow rfl hdiff d.least d.greatest hticks hlt
    (by omega) hone hwithin (h.forth.imp_left hzero)
  have htime : e'.time = .wrap (grid freq 1 (e.cpu.clock.count + k * e.cpu.cyclesPerInstr)) :=
    Instant.ext ht
  refine ⟨⟨h.rate, ?_, ?_, ?_, ?_⟩, ?_⟩
  · rw [hclock]
    rfl
  · rw [hcycles]
    exact h.cycles
  · rw [hclock]
    exact htime
  · rw [hcycles, htime]
    exact Or.inr hforth
  · apply Instant.le_of_ticks_le (Instant.ne_asap_of_isFinite hfinite)
    rw [ht]
    exact hforward

end DemoCpu
end Timebase
