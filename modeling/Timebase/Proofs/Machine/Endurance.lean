import Timebase.Proofs.Device.CpuTime
import Timebase.Proofs.Machine.Answering

/-!
# Machines endure

A machine may be asked for anything, also after a call that was refused or whose CPU broke off. As
long as its time is in the first half of the count, whatever the driver has delivered is delivered
to its end, and a report can be made.
-/

namespace Timebase

variable {c : MachineConfig} {out : List UInt8} {w v : World Peripherals} {m : Machine}
  {steps : Nat}

namespace Rig

section

variable {κ σ : Type} {d : Driver κ σ} {r : Rig κ σ} {stages : List (Stage κ σ)}
  {result : EStateM.Result Halt (Rig κ σ) Unit} {K : Rig κ σ → Prop}

/-- What holds before a call holds before each of its turns, and after it, if every turn that comes
to a result or breaks off keeps it. -/
theorem Course.endures
    (hturn : ∀ (turn : Turn) (r : Rig κ σ), K r → ¬ (turn.run d).Starves r →
      K ((turn.run d).after r))
    (course : Course d r stages result) (h : K r) :
    (∀ s ∈ stages, K s.rig) ∧ ((∀ r', result ≠ .error .starved r') → K (leftBehind result)) := by
  induction course with
  | ended | refused => exact ⟨List.forall_mem_nil _, fun _ => h⟩
  | @broken turn halt r r' hrun =>
    refine ⟨List.forall_mem_singleton.mpr h, fun hends => ?_⟩
    have hkept := hturn turn r h fun ⟨r'', hstarved⟩ => by
      rw [hrun] at hstarved
      exact hends r'' hstarved
    rw [Run.after_of_error hrun] at hkept
    exact hkept
  | @next turn r r' stages result hrun _ ih =>
    have hkept := hturn turn r h fun ⟨r'', hstarved⟩ => by
      rw [hrun] at hstarved
      cases hstarved
    rw [Run.after_of_ok hrun] at hkept
    obtain ⟨hstages, hend⟩ := ih hkept
    exact ⟨List.forall_mem_cons.mpr ⟨h, hstages⟩, hend⟩

end

variable {r : Rig DemoCpu Peripherals}

/-- Whatever became of the CPU, the world is ready as long as time is in the first half of the
count. -/
structure Enduring (c : MachineConfig) (out : List UInt8) (r : Rig DemoCpu Peripherals) : Prop where
  cpu : DemoCpu.Forth c.cpuFreq c.cyclesPerInstr r.emulator
  ready : r.emulator.time.Early → World.Ready c out r.emulator.time r.world

namespace Enduring

/-- Time never goes back, so in the first half of the count no delivery has ever broken off. -/
theorem turn (h : Enduring c out r) (turn : Turn)
    (hends : ¬ (turn.run (Machine.driver steps)).Starves r) :
    Enduring c out ((turn.run (Machine.driver steps)).after r) := by
  cases turn with
  | catchUp =>
    show Enduring c out ((catchUp (Machine.driver steps)).after r)
    have hsame := emulator_after_catchUp (Machine.driver steps) r
    refine ⟨hsame ▸ h.cpu, fun hearly => ?_⟩
    rw [hsame] at hearly ⊢
    rw [world_after_catchUp]
    have hready := h.ready hearly
    rcases Run.ok_or_error ((Machine.driver steps).schedule r.emulator.time) r.world with
      ⟨_, hv⟩ | ⟨halt, hv⟩
    · exact hready.schedule hv
    · cases hready.schedule_eq_error hearly hv
      exact absurd ⟨_, Run.on_of_error hv⟩ hends
  | runCpu budget =>
    show Enduring c out ((onEmulator (Emulator.runCpu DemoCpu.tick budget)).after r)
    rw [onEmulator, Run.after_on]
    obtain ⟨hcpu, hle⟩ := h.cpu.runCpu budget
    refine ⟨hcpu, fun hearly => ?_⟩
    have hbefore := hearly.of_le (Instant.ne_asap_of_isFinite h.cpu.finite) hle
    exact (h.ready hbefore).later hle

theorem stages (h : Enduring c out r) (steps turns : Nat) (order : Drive) :
    ∀ s ∈ callTurns (Machine.driver steps) turns r order, Enduring c out s.rig :=
  ((follow_course (Machine.driver steps) turns order r).endures
    (fun turn _ h hends => h.turn turn hends) h).1

theorem follow (h : Enduring c out r) (steps turns : Nat) (order : Drive)
    (hends : ¬ (Rig.follow (Machine.driver steps) turns order).Starves r) :
    Enduring c out ((Rig.follow (Machine.driver steps) turns order).after r) := by
  rw [← leftBehind_apply]
  exact ((follow_course (Machine.driver steps) turns order r).endures
    (fun turn _ h hends => h.turn turn hends) h).2 fun r' hstarved => hends ⟨r', hstarved⟩

end Enduring
end Rig

namespace Peripherals

theorem inject_ok (byte : UInt8) (w : World Peripherals) : ∃ v, inject byte w = .ok () v := by
  have hregister : w.scheduler.register .asap inputId InputPort.arrival = .ok _ :=
    Scheduler.register_eq_ok.mpr ⟨Or.inl rfl, rfl⟩
  exact ⟨_, (Run.bind_of_ok rfl).trans (World.register_of_ok hregister)⟩

theorem look_of_ok {α τ : Type} (part : Part Peripherals (Guarded τ)) (f : τ → α)
    (hset : ∀ p, part.set (part.get p) p = p) (hpart : (part.get w.devices).poisoned = false) :
    World.onDevices (Run.on part (Guarded.access (f <$> get))) w =
      .ok (f (part.get w.devices).value) w := by
  have hsame : Guarded.new (part.get w.devices).value = part.get w.devices := by
    rw [Guarded.new, ← hpart]
  have hlook := onPart_of_ok (w := w) part hpart
    (Run.map_of_ok f (rfl : (get : Run τ τ) (part.get w.devices).value = .ok _ _))
  rw [hsame, hset] at hlook
  exact hlook

end Peripherals

namespace Machine

theorem onWorld_of_ok {α : Type} {act : Run (World Peripherals) α} {a : α}
    (h : act m.rig.world = .ok a v) :
    onWorld act m = .ok a { m with rig := { m.rig with world := v } } :=
  Run.on_of_ok (Run.on_of_ok h)

theorem report_of_update (name : String) (wallSecs : Float) (hp : m.rig.world.devices.Usable)
    {a : AudioSampler}
    (h : AudioSampler.update m.scheduler.currentTime m.rig.world.devices.audio.value = .ok () a) :
    ∃ r, report name wallSecs m = .ok r
      { m with rig := { m.rig with world := { m.rig.world with
          devices := { m.rig.world.devices with audio := .new a } } } } := by
  let m₁ : Machine := { m with rig := { m.rig with world := { m.rig.world with
    devices := { m.rig.world.devices with audio := .new a } } } }
  have haudio : onWorld (Peripherals.onAudio (AudioSampler.update m.scheduler.currentTime)) m =
      .ok () m₁ := onWorld_of_ok (Peripherals.onPart_of_ok Peripherals.audioPart hp.audio h)
  have hframes : onWorld (Peripherals.onFrames (FrameTimer.frames <$> get)) m₁ = .ok _ m₁ :=
    onWorld_of_ok (Peripherals.look_of_ok Peripherals.framesPart _ (fun _ => rfl) hp.frames)
  have hbits : onWorld (Peripherals.onUart (Uart.bitsSent <$> get)) m₁ = .ok _ m₁ :=
    onWorld_of_ok (Peripherals.look_of_ok Peripherals.uartPart _ (fun _ => rfl) hp.uart)
  have hsamples : onWorld (Peripherals.onAudio (AudioSampler.samples <$> get)) m₁ = .ok _ m₁ :=
    onWorld_of_ok (Peripherals.look_of_ok Peripherals.audioPart _ (fun _ => rfl) rfl)
  have hget (m : Machine) : (get : Run Machine Machine) m = .ok m m := rfl
  rw [report, Run.bind_of_ok (hget m), Run.bind_of_ok (hget m), Run.bind_of_ok haudio,
    Run.bind_of_ok hframes, Run.bind_of_ok hbits, Run.bind_of_ok hsamples,
    Run.bind_of_ok (hget m₁)]
  exact ⟨_, rfl⟩

theorem emulator_report (name : String) (wallSecs : Float) (m : Machine) :
    ((report name wallSecs).after m).rig.emulator = m.rig.emulator := by
  have hworld {α : Type} (act : Run (World Peripherals) α) :
      Run.Preserves (fun m' => m'.rig.emulator = m.rig.emulator) (onWorld act) := by
    intro m' h
    rw [onWorld, Run.after_on, Rig.onWorld, Run.after_on]
    exact h
  have hget : Run.Preserves (fun m' => m'.rig.emulator = m.rig.emulator)
      (get : Run Machine Machine) := fun _ h => h
  have hreport : Run.Preserves (fun m' => m'.rig.emulator = m.rig.emulator)
      (report name wallSecs) :=
    .bind hget fun _ => .bind hget fun _ => .bind (hworld _) fun _ => .bind (hworld _) fun _ =>
      .bind (hworld _) fun _ => .bind (hworld _) fun _ => .bind hget fun _ _ h => h
  exact hreport m rfl

theorem report_ready (name : String) (wallSecs : Float) {limit : Instant} (hlimit : limit.Early)
    (h : World.Ready c m.serialOut limit m.rig.world) :
    ∃ r m', report name wallSecs m = .ok r m' ∧
      World.Ready c m'.serialOut limit m'.rig.world := by
  have hnow : m.scheduler.currentTime.Early := hlimit.of_le h.timed h.behind
  have hdevices := h.devices hnow
  obtain ⟨a, ha⟩ := hdevices.audio.update_ok hnow
  obtain ⟨r, hr⟩ := report_of_update name wallSecs h.usable ha
  refine ⟨r, _, hr, ⟨⟨⟨h.sound, h.timed, h.lifetimes, h.upcoming, ?_⟩, ?_⟩, ⟨h.owner, h.idle⟩,
    h.behind⟩⟩
  · exact fun _ => (hdevices.account hnow ha).2
  · exact ⟨h.usable.frames, h.usable.uart, rfl⟩

theorem endures_drain (h : Rig.Enduring c m.serialOut m.rig) :
    Rig.Enduring c m.drain.serialOut m.drain.rig := by
  refine ⟨h.cpu, fun hearly => ?_⟩
  have hready := h.ready hearly
  have hstep := (inStep_drain hready.toInStep).world
  have husable : m.drain.rig.world.devices.Usable :=
    ⟨hready.usable.frames, hready.usable.uart, hready.usable.audio⟩
  exact ⟨⟨hstep, husable⟩, ⟨hready.owner, hready.idle⟩, hready.behind⟩

theorem endures_follow {act : Run Machine Unit} (turns : Nat) (order : Rig.Drive)
    (hact : act = do
      Run.on rigPart (Rig.follow (driver steps) turns order)
      modify drain)
    (h : Rig.Enduring c m.serialOut m.rig) (hends : ¬ act.Starves m) :
    Rig.Enduring c (act.after m).serialOut (act.after m).rig := by
  have hrig := h.follow steps turns order
  rcases Run.ok_or_error (Rig.follow (driver steps) turns order) m.rig with ⟨_, hr⟩ | ⟨halt, hr⟩
  · have hafter : act.after m =
        drain { m with rig := (Rig.follow (driver steps) turns order).after m.rig } := by
      rw [hact, Run.after_congr (Run.bind_of_ok (Run.on_of_ok hr))]
      rfl
    rw [hafter]
    refine endures_drain (hrig fun ⟨r', hstarved⟩ => ?_)
    rw [hr] at hstarved
    cases hstarved
  · have hrun : act m =
        .error halt { m with rig := (Rig.follow (driver steps) turns order).after m.rig } := by
      rw [hact, Run.bind_of_error (Run.on_of_error hr)]
      rfl
    rw [Run.after_of_error hrun]
    refine hrig fun ⟨r', hstarved⟩ => ?_
    rw [hr] at hstarved
    cases hstarved
    exact hends ⟨_, hrun⟩

/-- A machine endures whatever it is asked for. -/
theorem endures_order (h : Rig.Enduring c m.serialOut m.rig) (order : Order)
    (hends : ¬ order.run.Starves m) :
    Rig.Enduring c (order.run.after m).serialOut (order.run.after m).rig := by
  cases order with
  | runFor steps span => exact endures_follow steps (.runFor span) rfl h hends
  | settle steps => exact endures_follow steps .step rfl h hends
  | inject byte =>
    obtain ⟨v, hv⟩ := Peripherals.inject_ok byte m.rig.world
    have hrun : (Order.inject byte).run m = .ok () _ := onWorld_of_ok hv
    rw [Run.after_of_ok hrun]
    exact ⟨h.cpu, fun hearly => (h.ready hearly).inject hv⟩
  | report name wallSecs =>
    have hafter : (Order.report name wallSecs).run.after m = (report name wallSecs).after m := by
      rcases Run.ok_or_error (report name wallSecs) m with ⟨r, hr⟩ | ⟨halt, hr⟩
      · exact Run.after_of_ok (Run.bind_of_ok hr)
      · exact Run.after_of_error (Run.bind_of_error hr)
    have hsame := emulator_report name wallSecs m
    rw [hafter]
    refine ⟨hsame ▸ h.cpu, fun hearly => ?_⟩
    rw [hsame] at hearly ⊢
    obtain ⟨r, m', hr, hready⟩ := report_ready name wallSecs hearly (h.ready hearly)
    rw [Run.after_of_ok hr]
    exact hready

theorem endures_new (hc : c.Fits) (h : new c = .ok m) : Rig.Enduring c m.serialOut m.rig := by
  have hstep := (inStep_of_new hc h).world
  have hlock := lockstep_of_new h
  obtain ⟨-, w, cpu, hw, -, rfl⟩ := new_eq_ok h
  have hfree : w.scheduler.owner = none ∧ w.scheduler.dispatching = false :=
    powerOn_keeps (K := fun s => s.owner = none ∧ s.dispatching = false) ⟨rfl, rfl⟩
      (fun hs h => ⟨(Scheduler.sameTime_register hs).owner.trans h.1,
        (Scheduler.sameTime_register hs).dispatching.trans h.2⟩) hw
  obtain ⟨_, _, _, _, _, _, _, _, -, -, -, -, -, -, -, -, hweq⟩ := powerOn_eq_ok hw
  have husable : w.devices.Usable := by
    rw [hweq]
    exact ⟨rfl, rfl, rfl⟩
  have hfinite : w.scheduler.currentTime.isFinite = true := by
    rw [currentTime_powerOn hw]
    rfl
  have hforth := hlock.cpu.toInStep.toForth hfinite
  rw [hlock.cpu.cycles_eq] at hforth
  refine ⟨hforth, fun _ => ⟨⟨hstep, husable⟩, ⟨?_, hfree.2⟩, Instant.le_refl _⟩⟩
  rw [hfree.1]
  rfl

/-- The turns that the driver takes on an order. -/
def Order.turns (m : Machine) : Order → List (Rig.Stage DemoCpu Peripherals)
  | .runFor steps span => Rig.callTurns (driver steps) steps m.rig (.runFor span)
  | .settle steps => Rig.callTurns (driver steps) steps m.rig .step
  | .inject _ | .report _ _ => []

/-- The machines of a configuration that were asked for anything, whatever came of it, as long as
each call had an end. -/
inductive Lived (c : MachineConfig) : Machine → Prop
  | made {m : Machine} (h : new c = .ok m) : Lived c m
  | told {m : Machine} (order : Order) (hm : Lived c m) (hends : ¬ order.run.Starves m) :
      Lived c (order.run.after m)

theorem Lived.order {m' : Machine} (h : Lived c m) (order : Order)
    (hrun : order.run m = .ok () m') : Lived c m' := by
  have hends : ¬ order.run.Starves m := by
    rintro ⟨m₂, hstarved⟩
    rw [hrun] at hstarved
    cases hstarved
  have htold := h.told order hends
  rw [Run.after_of_ok hrun] at htold
  exact htold

theorem Reached.lived (h : Reached c m) : Lived c m := by
  induction h with
  | made h => exact .made h
  | ran _ h ih => exact ih.order (.runFor _ _) h
  | settled _ h ih => exact ih.order (.settle _) h
  | injected _ h ih => exact ih.order (.inject _) h
  | reported _ h ih => exact ih.order (.report _ _) (Run.bind_of_ok h)

theorem Lived.endures (hc : c.Fits) (h : Lived c m) : Rig.Enduring c m.serialOut m.rig := by
  induction h with
  | made h => exact endures_new hc h
  | told order _ hends ih => exact endures_order ih order hends

theorem stages_endure (h : Rig.Enduring c m.serialOut m.rig) (order : Order) :
    ∀ s ∈ order.turns m, Rig.Enduring c m.serialOut s.rig := by
  cases order with
  | runFor steps span => exact h.stages steps steps (.runFor span)
  | settle steps => exact h.stages steps steps .step
  | inject | report => exact List.forall_mem_nil _

/-- In the first half of the count every delivery comes to its end, and nothing is in the way of
input or of a report. -/
theorem nothing_breaks_off_early (hc : c.Fits) (hm : Lived c m) :
    (∀ (order : Order) (r : Rig DemoCpu Peripherals), ⟨.catchUp, r⟩ ∈ order.turns m →
      r.emulator.time.ticks < 2 ^ 63 →
        ∃ v, ∀ steps, r.world.scheduler.workload r.emulator.time < steps →
          World.schedule Peripherals.wake steps mainThread r.emulator.time r.world = .ok () v) ∧
      (∀ byte, ∃ m', inject byte m = .ok () m') ∧
        (m.time.ticks < 2 ^ 63 → ∀ name wallSecs, ∃ r m', report name wallSecs m = .ok r m') := by
  have hendures := hm.endures hc
  refine ⟨fun order r hr hearly => ?_, fun byte => ?_, fun hearly name wallSecs => ?_⟩
  · have hready := (stages_endure hendures order _ hr).ready hearly
    exact hready.schedule_ends hearly
  · obtain ⟨v, hv⟩ := Peripherals.inject_ok byte m.rig.world
    exact ⟨_, onWorld_of_ok hv⟩
  · obtain ⟨r, m', hr, -⟩ := report_ready name wallSecs hearly (hendures.ready hearly)
    exact ⟨r, m', hr⟩

theorem nothing_breaks_off_early_slow_cpu :
    ∃ m r, Lived slowCpu m ∧ ⟨.catchUp, r⟩ ∈ (Order.settle 20).turns m ∧
      r.emulator.time.ticks = 229090880 ∧
      (∃ v, ∀ steps, r.world.scheduler.workload r.emulator.time < steps →
        World.schedule Peripherals.wake steps mainThread r.emulator.time r.world = .ok () v) ∧
      ∃ result m', report "" 0 m = .ok result m' := by
  have hturns : (trial slowCpu [.settle 20, .inject 65]).map
      (fun m => (m.time.ticks, ((Order.settle 20).turns m).map
        fun s => (s.turn, s.rig.emulator.time.ticks))) =
      some (114545440, [(.runCpu 1, 114545440), (.catchUp, 229090880)]) := by
    decide +kernel
  obtain ⟨m, hm, hturns⟩ := Option.map_eq_some_iff.mp hturns
  obtain ⟨htime, hturns⟩ := Prod.mk.inj hturns
  obtain ⟨m₀, hnew, hrun⟩ := trial_eq_some hm
  have hlived : Lived slowCpu m := ((Reached.made hnew).orders hrun).lived
  have hmem : (Rig.Turn.catchUp, 229090880) ∈ ((Order.settle 20).turns m).map
      fun s => (s.turn, s.rig.emulator.time.ticks) := by
    rw [hturns]
    decide
  obtain ⟨⟨turn, r⟩, hstage, heq⟩ := List.mem_map.mp hmem
  obtain ⟨hturn, hticks⟩ := Prod.mk.inj heq
  cases hturn
  obtain ⟨hdeliveries, -, hreport⟩ := nothing_breaks_off_early slowCpu_fits hlived
  refine ⟨m, r, hlived, hstage, hticks, hdeliveries _ r hstage ?_, hreport ?_ "" 0⟩
  · rw [show r.emulator.time.ticks = 229090880 from hticks]
    decide
  · rw [htime]
    decide

end Machine
end Timebase
