import Timebase.Proofs.Machine.Input
import Timebase.Proofs.Machine.RunTime
import Timebase.Proofs.Pacing

/-!
# CPU, emulator and scheduler in lockstep

The CPU tells how far its clock went, the emulator adds that up, and the scheduler is moved to the
time of the emulator. Each step is rounded down, but what is told is the difference of two instants
of one clock. So after any number of steps all three stand at the instant of the cycles executed.
-/

namespace Timebase

variable {c : MachineConfig} {m m' : Machine} {steps : Nat} {span : Span} {byte : UInt8}
  {name : String} {wallSecs : Float} {result : MachineReport}

namespace DemoCpu

open Clock (grid)

variable {freq perInstr budget : Nat} {e e' : Emulator DemoCpu}

/-- A CPU in step with its emulator, whose clock has gone on by the cycles of its instructions. -/
structure Counted (freq perInstr : Nat) (e : Emulator DemoCpu) : Prop extends InStep freq e where
  cycles_eq : e.cpu.cyclesPerInstr = perInstr
  counted : e.cpu.clock.count = e.cpu.instructions * perInstr

theorem Counted.runCpu (h : Counted freq perInstr e)
    (hrun : Emulator.runCpu tick budget e = .ok () e') :
    Counted freq perInstr e' ∧ e.time ≤ e'.time := by
  obtain ⟨hstep, hle⟩ := h.toInStep.runCpu hrun
  obtain ⟨used, htick, -, -⟩ := Emulator.runCpu_eq_ok hrun
  obtain ⟨k, hticked⟩ := tick_eq_ok h.rate h.clock htick
  refine ⟨⟨hstep, hticked.cycles.trans h.cycles_eq, ?_⟩, hle⟩
  rw [hticked.clock, hticked.instructions, h.cycles_eq, Nat.add_mul, ← h.counted]
  rfl

/-- As long as the cycles executed end within the count, no time is lost on the way. -/
theorem Counted.time_eq (h : Counted freq perInstr e)
    (hfits : e.cpu.instructions * perInstr * mainFreq / freq < UInt64.size) :
    e.time.ticks = e.cpu.instructions * perInstr * mainFreq / freq ∧
      e.cpu.clock.time = .ok e.time := by
  have hgrid : grid freq 1 e.cpu.clock.count = e.cpu.instructions * perInstr * mainFreq / freq := by
    rw [Clock.grid_one, h.counted]
  refine ⟨?_, ?_⟩
  · rw [h.time, hgrid, Instant.wrap_ticks hfits]
  · rw [h.clock, Clock.time_fromPowerOn, h.time]

end DemoCpu

namespace Rig

variable {σ κ : Type} {react : Reaction σ} {tick : Tick κ} {thread : ThreadId} {r r' : Rig κ σ}
  {limit : Instant} {turns budget : Nat} {K : Emulator κ → Prop}

theorem NotAhead.runCpu (h : NotAhead r)
    (hcpu : onEmulator (Emulator.runCpu tick budget) r = .ok () r')
    (hle : r.emulator.time ≤ r'.emulator.time) : NotAhead r' := by
  obtain ⟨e, he, rfl⟩ := Run.on_eq_ok.mp hcpu
  obtain ⟨used, -, -, hsum⟩ := Emulator.runCpu_eq_ok he
  obtain ⟨-, hfinite, -⟩ := Instant.addChecked_eq_ok hsum
  exact ⟨h.punctual, Instant.ne_asap_of_isFinite hfinite, Instant.le_trans h.behind hle⟩

section

variable (hreact : react.LeavesTime)
  (hcpu : ∀ {budget e e'}, Emulator.runCpu tick budget e = .ok () e' → K e →
    K e' ∧ e.time ≤ e'.time)

include hreact hcpu

/-- Where the CPU never takes time back, the world is level with it whenever the loop ends. -/
theorem NotAhead.runLoop_level (h : NotAhead r) (hk : K r.emulator)
    (hrun : runLoop (driver tick react steps thread) limit turns r = .ok () r') :
    Level r' ∧ K r'.emulator := by
  induction turns generalizing r with
  | zero => cases hrun
  | succ turns ih =>
    obtain ⟨r₁, hcatch, hturn⟩ := runLoop_succ_eq_ok hrun
    obtain ⟨hlevel, hsame⟩ := h.catchUp hreact hcatch
    rw [← hsame] at hk
    rcases hturn with ⟨-, rfl⟩ | ⟨ticks, r₂, hstep, hrest⟩
    · exact ⟨hlevel, hk⟩
    · obtain ⟨e, he, rfl⟩ := Run.on_eq_ok.mp hstep
      obtain ⟨hk, hle⟩ := hcpu he hk
      exact ih (hlevel.toNotAhead.runCpu hstep hle) hk hrest

theorem NotAhead.runFor_level (h : NotAhead r) (hk : K r.emulator)
    (hrun : runFor (driver tick react steps thread) turns span r = .ok () r') :
    Level r' ∧ K r'.emulator := by
  rw [runFor_apply] at hrun
  split at hrun
  · rename_i limit _
    cases hf : limit.isFinite with
    | true =>
      rw [runUntil, hf] at hrun
      exact h.runLoop_level hreact hcpu hk hrun
    | false =>
      rw [runUntil, hf] at hrun
      cases hrun
  · cases hrun

theorem NotAhead.step_level (h : NotAhead r) (hk : K r.emulator)
    (hrun : step (driver tick react steps thread) r = .ok () r') :
    Level r' ∧ K r'.emulator := by
  obtain ⟨_, r₁, hstep, hcatch⟩ := Run.bind_eq_ok.mp hrun
  obtain ⟨e, he, rfl⟩ := Run.on_eq_ok.mp hstep
  obtain ⟨hk, hle⟩ := hcpu he hk
  obtain ⟨hlevel, hsame⟩ := (h.runCpu hstep hle).catchUp hreact hcatch
  exact ⟨hlevel, hsame ▸ hk⟩

end
end Rig

theorem Peripherals.reaction_leavesTime : reaction.LeavesTime := by
  intro device time tag
  rcases device with _ | _ | _ | _ | n
  · exact ⟨trivial, fun _ => trivial⟩
  · refine ⟨trivial, fun asked => ?_⟩
    show (Uart.asking uartId asked.join).LeavesTime
    cases asked.join <;> trivial
  · refine ⟨trivial, fun _ => ⟨fun _ _ => rfl, fun asked => ?_⟩⟩
    cases asked <;> trivial
  · exact ⟨trivial, fun _ => trivial⟩
  · trivial

namespace Machine

open DemoCpu (Counted)

theorem driver_eq (steps : Nat) :
    driver steps = Rig.driver DemoCpu.tick Peripherals.reaction steps mainThread := by
  rw [Rig.driver, Peripherals.reaction_wake]
  rfl

/-- A machine between two calls: its CPU has counted what it did, and the time of its scheduler is
that of the CPU. -/
structure Lockstep (c : MachineConfig) (m : Machine) : Prop where
  cpu : Counted c.cpuFreq c.cyclesPerInstr m.rig.emulator
  notAhead : Rig.NotAhead m.rig
  level : m.scheduler.currentTime = m.time

namespace Lockstep

theorem of_level (h : Rig.Level m.rig ∧ Counted c.cpuFreq c.cyclesPerInstr m.rig.emulator) :
    Lockstep c m.drain := by
  obtain ⟨hlevel, hcpu⟩ := h
  have hworld := hlevel.punctual
  exact ⟨hcpu, ⟨⟨hworld.sound, hworld.started, hworld.onTime⟩, hlevel.timed, hlevel.behind⟩,
    hlevel.level⟩

theorem ran_level (h : Lockstep c m) (hrun : runFor steps span m = .ok () m') :
    ∃ rig, m' = drain { m with rig } ∧
      Rig.Level rig ∧ Counted c.cpuFreq c.cyclesPerInstr rig.emulator := by
  obtain ⟨rig, hrig, rfl⟩ := runFor_eq_ok hrun
  rw [driver_eq] at hrig
  exact ⟨rig, rfl,
    h.notAhead.runFor_level Peripherals.reaction_leavesTime (fun he hk => hk.runCpu he) h.cpu hrig⟩

theorem settled_level (h : Lockstep c m) (hrun : settle steps m = .ok () m') :
    ∃ rig, m' = drain { m with rig } ∧
      Rig.Level rig ∧ Counted c.cpuFreq c.cyclesPerInstr rig.emulator := by
  obtain ⟨rig, hrig, rfl⟩ := settle_eq_ok hrun
  rw [driver_eq] at hrig
  exact ⟨rig, rfl,
    h.notAhead.step_level Peripherals.reaction_leavesTime (fun he hk => hk.runCpu he) h.cpu hrig⟩

theorem ran (h : Lockstep c m) (hrun : runFor steps span m = .ok () m') : Lockstep c m' := by
  obtain ⟨rig, rfl, hlevel⟩ := h.ran_level hrun
  exact of_level hlevel

theorem settled (h : Lockstep c m) (hrun : settle steps m = .ok () m') : Lockstep c m' := by
  obtain ⟨rig, rfl, hlevel⟩ := h.settled_level hrun
  exact of_level hlevel

theorem of_world {w : World Peripherals} (h : Lockstep c m) (hs : w.scheduler.Sound)
    (htime : w.scheduler.OnTime) (hnow : w.scheduler.currentTime = m.scheduler.currentTime) :
    Lockstep c { m with rig := { m.rig with world := w } } := by
  have hstarted : w.scheduler.currentTime ≠ .asap := hnow ▸ h.notAhead.punctual.started
  have hbehind : w.scheduler.currentTime ≤ m.rig.emulator.time := hnow ▸ h.notAhead.behind
  exact ⟨h.cpu, ⟨⟨hs, hstarted, htime⟩, h.notAhead.timed, hbehind⟩, hnow.trans h.level⟩

theorem injected (h : Lockstep c m) (hbyte : inject byte m = .ok () m') : Lockstep c m' := by
  obtain ⟨v, hv, rfl⟩ := onWorld_eq_ok hbyte
  obtain ⟨hs, -⟩ := Peripherals.inject_eq_ok hv
  exact h.of_world (.register hs) (h.notAhead.punctual.onTime.register hs)
    (Scheduler.sameTime_register hs).currentTime

theorem reported (h : Lockstep c m) (hr : report name wallSecs m = .ok result m') :
    Lockstep c m' := by
  obtain ⟨a, -, rfl, -⟩ := report_eq_ok hr
  exact h.of_world h.notAhead.punctual.sound h.notAhead.punctual.onTime rfl

end Lockstep

theorem lockstep_of_new (h : new c = .ok m) : Lockstep c m := by
  obtain ⟨hcpu, hzero⟩ := inStep_cpu_of_new h
  obtain ⟨hvalid, w, cpu, hw, hcpu', rfl⟩ := new_eq_ok h
  have hnow := currentTime_powerOn hw
  have hstarted : w.scheduler.currentTime ≠ .asap := hnow ▸ Instant.early_zero.ne_asap
  have hsound := sound_powerOn hw
  have honTime : w.scheduler.OnTime :=
    powerOn_keeps (K := Scheduler.OnTime) (.start .zero) (fun hs h => h.register hs) hw
  obtain ⟨clock, hclock, hcpu'⟩ := Attempt.bind_eq_ok.mp hcpu'
  cases hcpu'
  rw [hnow] at hclock
  obtain ⟨rfl, -⟩ := Clock.new_eq_ok hclock
  refine ⟨⟨hcpu, Nat.max_eq_left (c.pos_of_validate hvalid).1, ?_⟩,
    ⟨⟨hsound, hstarted, honTime⟩, hstarted, Instant.le_refl _⟩, rfl⟩
  exact (Nat.zero_mul _).symm

theorem Reached.lockstep (h : Reached c m) : Lockstep c m := by
  induction h with
  | made h => exact lockstep_of_new h
  | ran _ h ih => exact ih.ran h
  | settled _ h ih => exact ih.settled h
  | injected _ h ih => exact ih.injected h
  | reported _ h ih => exact ih.reported h

/-- Whatever budgets the CPU was given, the emulator, the clock of the CPU and the scheduler all
stand where the cycles that the CPU has executed end. -/
theorem times_stay_in_lockstep (hm : Reached c m)
    (hfits : m.rig.emulator.cpu.instructions * c.cyclesPerInstr * mainFreq / c.cpuFreq <
      2 ^ 64 - 1) :
    m.time.ticks = m.rig.emulator.cpu.instructions * c.cyclesPerInstr * mainFreq / c.cpuFreq ∧
      m.rig.emulator.cpu.clock.time = .ok m.time ∧ m.scheduler.currentTime = m.time := by
  have h := hm.lockstep
  obtain ⟨hticks, hclock⟩ := h.cpu.time_eq (Nat.lt_of_lt_of_le hfits (Nat.sub_le _ _))
  exact ⟨hticks, hclock, h.level⟩

/-- The machine of a configuration that did as it was told, if it could. -/
def trial (c : MachineConfig) (orders : List Order) : Option Machine :=
  match new c with
  | .error _ => none
  | .ok m =>
    match orders.forM Order.run m with
    | .error _ _ => none
    | .ok _ m => some m

theorem Reached.order {order : Order} (h : Reached c m) (hrun : order.run m = .ok () m') :
    Reached c m' := by
  cases order with
  | runFor steps span => exact .ran h hrun
  | settle steps => exact .settled h hrun
  | inject byte => exact .injected h hrun
  | report name wallSecs =>
    obtain ⟨r, m₁, hreport, hend⟩ := Run.bind_eq_ok.mp hrun
    cases hend
    exact .reported h hreport

theorem Reached.orders {orders : List Order} (h : Reached c m)
    (hrun : orders.forM Order.run m = .ok () m') : Reached c m' := by
  induction orders generalizing m with
  | nil =>
    cases hrun
    exact h
  | cons order orders ih =>
    obtain ⟨_, m₁, hfirst, hrest⟩ := Run.bind_eq_ok.mp hrun
    exact ih (h.order hfirst) hrest

theorem trial_eq_some {orders : List Order} (h : trial c orders = some m) :
    ∃ m₀, new c = .ok m₀ ∧ orders.forM Order.run m₀ = .ok () m := by
  rw [trial] at h
  split at h
  · cases h
  · rename_i m₀ hnew
    split at h
    · cases h
    · rename_i m₁ hrun
      cases h
      exact ⟨m₀, hnew, hrun⟩

/-- Instructions that take no whole number of ticks. -/
def unevenCpu : MachineConfig := { MachineConfig.default with cpuFreq := 3500000, cyclesPerInstr := 7 }

theorem times_stay_in_lockstep_uneven_cpu :
    ∃ m, Reached unevenCpu m ∧ m.rig.emulator.cpu.instructions = 4 ∧ m.time.ticks = 27490 ∧
      m.rig.emulator.cpu.clock.time = .ok m.time ∧ m.scheduler.currentTime = m.time := by
  have hcount : (trial unevenCpu [.runFor 40 (.wrap 20000), .settle 40]).map
      (fun m => m.rig.emulator.cpu.instructions) = some 4 := by
    decide +kernel
  obtain ⟨m, hm, hcount⟩ := Option.map_eq_some_iff.mp hcount
  obtain ⟨m₀, hnew, hrun⟩ := trial_eq_some hm
  have hreached : Reached unevenCpu m := (Reached.made hnew).orders hrun
  obtain ⟨hticks, hclock, hnow⟩ := times_stay_in_lockstep hreached (by rw [hcount]; decide)
  rw [hcount] at hticks
  exact ⟨m, hreached, hcount, hticks, hclock, hnow⟩

end Machine
end Timebase
