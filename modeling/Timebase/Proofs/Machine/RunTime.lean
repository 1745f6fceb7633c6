import Timebase.Command.Batch
import Timebase.Proofs.Device.DemoCpu
import Timebase.Proofs.Machine.Report

/-!
# How long machines run

A machine that comes to its end has run for the time it was given, which is the time asked for
unless that does not fit into 64 bits.
-/

namespace Timebase

variable {c : MachineConfig} {m m' : Machine} {steps : Nat} {span : Span} {byte : UInt8}
  {name : String} {r : MachineReport}

namespace Machine

theorem inStep_cpu_of_new (h : new c = .ok m) :
    DemoCpu.InStep c.cpuFreq m.rig.emulator ∧ m.time = .zero := by
  obtain ⟨-, w, cpu, hw, hcpu, rfl⟩ := new_eq_ok h
  have hnow := currentTime_powerOn hw
  rw [hnow] at hcpu
  refine ⟨?_, hnow⟩
  show DemoCpu.InStep c.cpuFreq ⟨cpu, w.scheduler.currentTime, 0⟩
  rw [hnow]
  exact DemoCpu.inStep_of_new hcpu

theorem runFor_reaches (h : runFor steps span m = .ok () m')
    (hm : DemoCpu.InStep c.cpuFreq m.rig.emulator) :
    DemoCpu.InStep c.cpuFreq m'.rig.emulator ∧
      ∃ limit, m.time.addChecked span = .ok limit ∧ limit ≤ m'.time := by
  obtain ⟨rig, hrig, rfl⟩ := runFor_eq_ok h
  have hreached := Rig.runFor_reaches (K := DemoCpu.InStep c.cpuFreq)
    (fun hstep hk => (hk.runCpu hstep).1) hrig hm
  exact hreached

theorem le_time_of_settle (h : settle steps m = .ok () m')
    (hm : DemoCpu.InStep c.cpuFreq m.rig.emulator) : m.time ≤ m'.time := by
  obtain ⟨rig, hrig, rfl⟩ := settle_eq_ok h
  exact (hm.runCpu (Rig.step_eq_ok hrig)).2

theorem emulator_injectAll {bytes : List UInt8} (h : bytes.forM inject m = .ok () m') :
    m'.rig.emulator = m.rig.emulator := by
  induction bytes generalizing m with
  | nil =>
    cases h
    rfl
  | cons byte bytes ih =>
    obtain ⟨_, m₁, hbyte, hrest⟩ := Run.bind_eq_ok.mp h
    obtain ⟨v, -, rfl⟩ := onWorld_eq_ok hbyte
    have hkept := ih hrest
    exact hkept

end Machine

namespace Command

/-- What a machine does from power-on up to its report. -/
def course (steps : Nat) (c : MachineConfig) (name : String) : Run Machine MachineReport := do
  Machine.runFor steps (runSpan c.runMsec)
  (hotplugBytes c.hotplugEvents).forM Machine.inject
  Machine.settle steps
  Machine.report name 0

theorem runMachine_of_ok {m : Machine} (hm : Machine.new c = .ok m) (name : String) :
    runMachine steps c name =
      match course steps c name m with
      | .ok report _ => .ok report
      | .error halt _ => .error halt := by
  rw [runMachine, hm]
  rfl

theorem runMachine_eq_ok (h : runMachine steps c name = .ok r) :
    ∃ m m₁ m₂ m₃ m₄, Machine.new c = .ok m ∧
      Machine.runFor steps (runSpan c.runMsec) m = .ok () m₁ ∧
      (hotplugBytes c.hotplugEvents).forM Machine.inject m₁ = .ok () m₂ ∧
      Machine.settle steps m₂ = .ok () m₃ ∧ Machine.report name 0 m₃ = .ok r m₄ := by
  cases hm : Machine.new c with
  | error cause =>
    rw [runMachine, hm] at h
    cases h
  | ok m =>
    rw [runMachine_of_ok hm] at h
    split at h
    · rename_i report m₄ hcourse
      cases h
      obtain ⟨_, m₁, h₁, hcourse⟩ := Run.bind_eq_ok.mp hcourse
      obtain ⟨_, m₂, h₂, hcourse⟩ := Run.bind_eq_ok.mp hcourse
      obtain ⟨_, m₃, h₃, h₄⟩ := Run.bind_eq_ok.mp hcourse
      exact ⟨m, m₁, m₂, m₃, m₄, rfl, h₁, h₂, h₃, h₄⟩
    · cases h

theorem runSpan_of_lt {msec : Nat} (h : msec < 9223372036854775808) :
    runSpan msec = Span.wrap (msec * mainFreq / 1000 : Nat) := by
  have hmsec : Int.bmod msec UInt64.size = msec := by
    rw [Int.bmod_eq_of_le_mul_two]
    all_goals
      simp only [UInt64.size]
      omega
  rw [runSpan, Span.milliseconds, hmsec, ← Int.natCast_mul]
  exact congrArg Span.wrap (Int.ofNat_tdiv _ _).symm

theorem ticks_runSpan {msec : Nat} (h : msec * mainFreq / 1000 < UInt64.size)
    (hpos : 0 ≤ (runSpan msec).ticks) :
    (runSpan msec).ticks = (msec * mainFreq / 1000 : Nat) := by
  have hmsec : msec < 9223372036854775808 := by
    simp only [mainFreq, UInt64.size] at h
    omega
  have hmod := Span.wrap_emod (msec * mainFreq / 1000 : Nat)
  have hgreatest := (runSpan msec).greatest
  rw [← runSpan_of_lt hmsec] at hmod
  simp only [UInt64.size] at h hmod
  omega

/-- A machine that comes to its end has run for its span, which is the time that was asked for if
that fits into 64 bits. -/
theorem machines_run_long_enough (h : runMachine steps c name = .ok r) :
    0 ≤ (runSpan c.runMsec).ticks ∧ (runSpan c.runMsec).ticks ≤ r.emulatedTicks ∧
      (c.runMsec * mainFreq / 1000 < UInt64.size →
        c.runMsec * mainFreq / 1000 ≤ r.emulatedTicks) := by
  obtain ⟨m, m₁, m₂, m₃, m₄, hnew, hrun, hinject, hsettle, hreport⟩ := runMachine_eq_ok h
  obtain ⟨hm, hstart⟩ := Machine.inStep_cpu_of_new hnew
  obtain ⟨hm₁, limit, hlimit, hle⟩ := Machine.runFor_reaches hrun hm
  rw [hstart] at hlimit
  obtain ⟨-, hfinite, hticks⟩ := Instant.addChecked_eq_ok hlimit
  -- injected input does not reach the CPU, and the last step does not take it back
  have hsame := Machine.emulator_injectAll hinject
  have hsettled : m₂.time ≤ m₃.time := by
    apply Machine.le_time_of_settle hsettle (c := c)
    rw [hsame]
    exact hm₁
  have hend : limit ≤ m₃.time := by
    have htime : m₂.time = m₁.time := congrArg Emulator.time hsame
    rw [htime] at hsettled
    exact Instant.le_trans hle hsettled
  obtain ⟨-, -, -, -, -, -, -, -, hreported, -⟩ := Machine.report_eq_ok hreport
  have hne := Instant.ne_asap_of_isFinite hfinite
  have hlate : limit.ticks ≤ r.emulatedTicks := by
    have hnever : m₃.time ≠ .asap := by
      intro htime
      rw [htime] at hend
      exact hne (Instant.le_antisymm hend Instant.asap_le)
    rw [hreported]
    exact Instant.ticks_le_of_le hnever hne hend
  have hzero : Instant.zero.ticks = 0 := rfl
  have hpos : 0 ≤ (runSpan c.runMsec).ticks := by omega
  refine ⟨hpos, by omega, ?_⟩
  intro hfits
  have hexact := ticks_runSpan hfits hpos
  omega

theorem machines_run_long_enough_millisecond :
    ∃ r, runMachine 40 { MachineConfig.default with runMsec := 1 } "machine-0" = .ok r ∧
      3436363 ≤ r.emulatedTicks := by
  have hticks : (runMachine 40 { MachineConfig.default with runMsec := 1 }
      "machine-0").toOption.map MachineReport.emulatedTicks = some 3456000 := by
    decide +kernel
  obtain ⟨r, hr, -⟩ := Option.map_eq_some_iff.mp hticks
  have hr := eq_ok_of_toOption hr
  obtain ⟨-, -, hlong⟩ := machines_run_long_enough hr
  exact ⟨r, hr, hlong (by decide)⟩

/-- A time that does not fit into 64 bits is cut off, and the machine runs for one instruction. -/
theorem machine_stops_early_on_cut_off_time :
    ∃ r, ({ MachineConfig.default with runMsec := 5368100808934 } :
        MachineConfig).validate = .ok () ∧
      runMachine 40 { MachineConfig.default with runMsec := 5368100808934 } "machine-0" = .ok r ∧
      r.emulatedTicks = 1497600 ∧ r.emulatedTicks < 5368100808934 * mainFreq / 1000 := by
  have hticks : (runMachine 40 { MachineConfig.default with runMsec := 5368100808934 }
      "machine-0").toOption.map MachineReport.emulatedTicks = some 1497600 := by
    decide +kernel
  obtain ⟨r, hr, hearly⟩ := Option.map_eq_some_iff.mp hticks
  refine ⟨r, ?_, eq_ok_of_toOption hr, hearly, ?_⟩
  · rfl
  · rw [hearly]
    decide

end Command
end Timebase
