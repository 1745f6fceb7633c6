import Timebase.Proofs.Emulator
import Timebase.Proofs.Machine.Running

/-!
# What machines report

What a machine reports of its devices follows from the time of its scheduler alone: not from its
CPU, nor from how a run was cut into calls, nor from the reports that were made before.
-/

namespace Timebase

variable {c : MachineConfig} {out : List UInt8} {w v : World Peripherals} {limit : Instant}
  {m m' : Machine} {steps : Nat} {span : Span} {byte : UInt8} {name : String} {wallSecs : Float}
  {r : MachineReport}

/-- The numbers of a configuration fit into 64 bits, that of its events into 32. -/
structure MachineConfig.Fits (c : MachineConfig) : Prop where
  cpuFreq : c.cpuFreq < UInt64.size
  cyclesPerInstr : c.cyclesPerInstr < UInt64.size
  baud : c.baud < UInt64.size
  sampleRate : c.sampleRate < UInt64.size
  audioBatch : c.audioBatch < UInt64.size
  runMsec : c.runMsec < UInt64.size
  hotplugEvents : c.hotplugEvents < UInt32.size

theorem MachineConfig.pos_of_validate (h : c.validate = .ok ()) :
    0 < c.cyclesPerInstr ∧ 0 < c.audioBatch := by
  rw [validate] at h
  split at h
  · cases h
  · split at h
    · cases h
    · rename_i hamounts
      omega

theorem Peripherals.inject_eq_ok (h : Peripherals.inject byte w = .ok () v) :
    w.scheduler.register .asap Peripherals.inputId InputPort.arrival = .ok v.scheduler ∧
      v = { w with
        scheduler := v.scheduler
        devices := { w.devices with input := w.devices.input.inject byte } } := by
  obtain ⟨_, u, hbyte, hregister⟩ := Run.bind_eq_ok.mp h
  obtain ⟨devices, hmodify, rfl⟩ := Run.on_eq_ok.mp hbyte
  cases hmodify
  obtain ⟨s, hs, rfl⟩ := Peripherals.request_eq_ok (r := ⟨.asap, InputPort.arrival⟩) hregister
  exact ⟨hs, rfl⟩

namespace World.InStep

theorem inject (h : InStep c out .asap w) (hv : Peripherals.inject byte w = .ok () v) :
    InStep c out .asap v ∧ v.scheduler.currentTime = w.scheduler.currentTime ∧
      v.devices.uart = w.devices.uart := by
  obtain ⟨hs, hveq⟩ := Peripherals.inject_eq_ok hv
  have hnow : v.scheduler.currentTime = w.scheduler.currentTime :=
    (Scheduler.sameTime_register hs).currentTime
  have hdevices : v.devices = { w.devices with input := w.devices.input.inject byte } :=
    congrArg World.devices hveq
  have hlifetimes : v.lifetimes = w.lifetimes := by
    rw [hveq]
  refine ⟨⟨.register hs, hnow ▸ h.timed, hlifetimes.trans h.lifetimes, ?_, ?_⟩, hnow, ?_⟩
  · intro hearly
    exact (h.upcoming (hnow ▸ hearly)).register hs (Or.inl rfl)
  · intro hearly
    rw [hnow, hdevices]
    exact ((h.devices (hnow ▸ hearly)).inject byte).of_perm (Scheduler.wanted_register hs)
  · rw [hdevices]

end World.InStep

namespace Machine

/-- The machines that calls may make of a configuration. -/
inductive Reached (c : MachineConfig) : Machine → Prop
  | made {m : Machine} (h : new c = .ok m) : Reached c m
  | ran {m m' : Machine} {steps : Nat} {span : Span} (hm : Reached c m)
      (h : runFor steps span m = .ok () m') : Reached c m'
  | settled {m m' : Machine} {steps : Nat} (hm : Reached c m)
      (h : settle steps m = .ok () m') : Reached c m'
  | injected {m m' : Machine} {byte : UInt8} (hm : Reached c m)
      (h : inject byte m = .ok () m') : Reached c m'
  | reported {m m' : Machine} {name : String} {wallSecs : Float} {r : MachineReport}
      (hm : Reached c m) (h : report name wallSecs m = .ok r m') : Reached c m'

theorem onWorld_eq_ok {α : Type} {act : Run (World Peripherals) α} {a : α}
    (h : onWorld act m = .ok a m') :
    ∃ v, act m.rig.world = .ok a v ∧ m' = { m with rig := { m.rig with world := v } } := by
  obtain ⟨rig, hrig, rfl⟩ := Run.on_eq_ok.mp h
  obtain ⟨v, hv, rfl⟩ := Run.on_eq_ok.mp hrig
  exact ⟨v, hv, rfl⟩

theorem new_eq_ok (h : new c = .ok m) :
    c.validate = .ok () ∧ ∃ w cpu, powerOn c .new = .ok w ∧
      DemoCpu.new w.scheduler.currentTime c.cpuFreq c.cyclesPerInstr = .ok cpu ∧
      m = ⟨⟨.new cpu w.scheduler, w⟩, []⟩ := by
  obtain ⟨_, hvalid, h₁⟩ := Attempt.bind_eq_ok.mp h
  obtain ⟨w, hw, h₂⟩ := Attempt.bind_eq_ok.mp h₁
  obtain ⟨cpu, hcpu, hm⟩ := Attempt.bind_eq_ok.mp h₂
  cases hm
  exact ⟨hvalid, w, cpu, hw, hcpu, rfl⟩

theorem runFor_eq_ok (h : runFor steps span m = .ok () m') :
    ∃ rig, Rig.runFor (driver steps) steps span m.rig = .ok () rig ∧
      m' = drain { m with rig } := by
  obtain ⟨_, m₁, hon, hdrain⟩ := Run.bind_eq_ok.mp h
  cases hdrain
  obtain ⟨rig, hrig, rfl⟩ := Run.on_eq_ok.mp hon
  exact ⟨rig, hrig, rfl⟩

theorem settle_eq_ok (h : settle steps m = .ok () m') :
    ∃ rig, Rig.step (driver steps) m.rig = .ok () rig ∧ m' = drain { m with rig } := by
  obtain ⟨_, m₁, hon, hdrain⟩ := Run.bind_eq_ok.mp h
  cases hdrain
  obtain ⟨rig, hrig, rfl⟩ := Run.on_eq_ok.mp hon
  exact ⟨rig, hrig, rfl⟩

theorem report_eq_ok (h : report name wallSecs m = .ok r m') :
    ∃ a, AudioSampler.update m.scheduler.currentTime m.rig.world.devices.audio.value = .ok () a ∧
      m' = { m with rig := { m.rig with world := { m.rig.world with
        devices := { m.rig.world.devices with audio := .new a } } } } ∧
      r.frames = m.rig.world.devices.frames.value.frames ∧
      r.serialBits = m.rig.world.devices.uart.value.bitsSent ∧
      r.serialOutput = Text.ofOctets m.serialOut ∧
      r.audioSamples = a.samples ∧
      r.audioSamplesExpected =
        m.scheduler.currentTime.periods m.rig.world.devices.audioFormat.rate ∧
      r.emulatedTicks = m.time.ticks ∧ r.inputEvents = m.latched.length ∧
      r.pendingSyncPoints = m.scheduler.size := by
  obtain ⟨_, _, hget, h₁⟩ := Run.bind_eq_ok.mp h
  cases hget
  obtain ⟨_, _, hget, h₂⟩ := Run.bind_eq_ok.mp h₁
  cases hget
  obtain ⟨_, m₁, haudio, h₃⟩ := Run.bind_eq_ok.mp h₂
  obtain ⟨v, hv, rfl⟩ := onWorld_eq_ok haudio
  obtain ⟨a, ha, rfl⟩ := Peripherals.onPart_eq_ok hv
  obtain ⟨frames, m₂, hframes, h₄⟩ := Run.bind_eq_ok.mp h₃
  obtain ⟨v, hv, rfl⟩ := onWorld_eq_ok hframes
  obtain ⟨rfl, rfl⟩ := Peripherals.look_eq_ok (fun _ => rfl) hv
  obtain ⟨bits, m₃, hbits, h₅⟩ := Run.bind_eq_ok.mp h₄
  obtain ⟨v, hv, rfl⟩ := onWorld_eq_ok hbits
  obtain ⟨rfl, rfl⟩ := Peripherals.look_eq_ok (fun _ => rfl) hv
  obtain ⟨samples, m₄, hsamples, h₆⟩ := Run.bind_eq_ok.mp h₅
  obtain ⟨v, hv, rfl⟩ := onWorld_eq_ok hsamples
  obtain ⟨rfl, rfl⟩ := Peripherals.look_eq_ok (fun _ => rfl) hv
  obtain ⟨_, _, hget, hr⟩ := Run.bind_eq_ok.mp h₆
  cases hget
  cases hr
  exact ⟨a, ha, rfl, rfl, rfl, rfl, rfl, rfl, rfl, rfl, rfl⟩

/-- A machine in step with time between two calls: what came over the serial line is fetched. -/
structure InStep (c : MachineConfig) (m : Machine) : Prop where
  world : World.InStep c m.serialOut .asap m.rig.world
  fetched : m.scheduler.currentTime.Early → m.rig.world.devices.uart.value.receiver.arrived = []

theorem drain_of_connected (h : m.rig.world.devices.uart.value.receiver.connected = true) :
    m.drain =
      { m with
        rig := { m.rig with world := { m.rig.world with devices := { m.rig.world.devices with
          uart := { m.rig.world.devices.uart with value := { m.rig.world.devices.uart.value with
            receiver := { m.rig.world.devices.uart.value.receiver with arrived := [] } } } } } }
        serialOut := m.serialOut ++ m.rig.world.devices.uart.value.receiver.arrived } := by
  rw [drain, Receiver.fetch, if_pos h]
  rfl

theorem inStep_drain (h : World.InStep c m.serialOut .asap m.rig.world) : InStep c m.drain := by
  have hdrained : m.scheduler.currentTime.Early →
      Peripherals.InStep c m.drain.serialOut m.scheduler.currentTime m.drain.rig.world.devices
        m.scheduler.wanted ∧ m.drain.rig.world.devices.uart.value.receiver.arrived = [] := by
    intro hearly
    have hdevices := h.devices hearly
    rw [drain_of_connected hdevices.uart.connected]
    exact ⟨hdevices.fetch, rfl⟩
  exact ⟨⟨h.sound, h.timed, h.lifetimes, h.upcoming, fun hearly => (hdrained hearly).1⟩,
    fun hearly => (hdrained hearly).2⟩

theorem driver_keeps
    (hv : (driver steps).schedule limit w = .ok () v) (hw : World.InStep c out .asap w) :
    World.InStep c out .asap v := hw.schedule hv

namespace InStep

theorem ran (h : InStep c m) (hrun : runFor steps span m = .ok () m') : InStep c m' := by
  obtain ⟨rig, hrig, rfl⟩ := runFor_eq_ok hrun
  exact inStep_drain (Rig.runFor_keeps driver_keeps hrig h.world)

theorem settled (h : InStep c m) (hrun : settle steps m = .ok () m') : InStep c m' := by
  obtain ⟨rig, hrig, rfl⟩ := settle_eq_ok hrun
  exact inStep_drain (Rig.step_keeps driver_keeps hrig h.world)

theorem injected (h : InStep c m) (hbyte : inject byte m = .ok () m') : InStep c m' := by
  obtain ⟨v, hv, rfl⟩ := onWorld_eq_ok hbyte
  obtain ⟨hworld, hnow, huart⟩ := h.world.inject hv
  refine ⟨hworld, ?_⟩
  intro hearly
  show v.devices.uart.value.receiver.arrived = []
  rw [huart]
  exact h.fetched (hnow ▸ hearly)

theorem reported (h : InStep c m) (hr : report name wallSecs m = .ok r m') : InStep c m' := by
  obtain ⟨a, ha, rfl, -⟩ := report_eq_ok hr
  refine ⟨⟨h.world.sound, h.world.timed, h.world.lifetimes, h.world.upcoming, ?_⟩, h.fetched⟩
  intro hearly
  exact ((h.world.devices hearly).account hearly ha).2

end InStep

theorem powerOn_eq_ok (h : powerOn c .new = .ok w) :
    ∃ frames firstFrame uart audio format firstBatch s₁ s₂,
      FrameTimer.new .zero c.video.frameRate.1 c.video.frameRate.2 = .ok (frames, firstFrame) ∧
      Uart.new .zero c.baud = .ok uart ∧ AudioSampler.new .zero c.sampleRate = .ok audio ∧
      AudioFormat.new c.sampleRate c.audioBatch = .ok format ∧
      format.endOfBatch .zero = .ok firstBatch ∧
      Scheduler.new.register firstFrame.time Peripherals.framesId firstFrame.tag = .ok s₁ ∧
      s₁.register firstBatch.time Peripherals.audioId firstBatch.tag = .ok s₂ ∧
      s₂.register .asap Peripherals.uartId Uart.start = .ok w.scheduler ∧
      w = {
        scheduler := w.scheduler
        lifetimes := List.replicate 4 ⟨true, 0, true⟩
        skipped := []
        devices := ⟨.new frames, .new (uart.send (Text.toOctets c.message)).2, .new audio, format,
          .new⟩ } := by
  obtain ⟨⟨frames, firstFrame⟩, hframes, h₁⟩ := Attempt.bind_eq_ok.mp h
  obtain ⟨s₁, hs₁, h₂⟩ := Attempt.bind_eq_ok.mp h₁
  obtain ⟨uart, huart, h₃⟩ := Attempt.bind_eq_ok.mp h₂
  obtain ⟨audio, haudio, h₄⟩ := Attempt.bind_eq_ok.mp h₃
  obtain ⟨format, hformat, h₅⟩ := Attempt.bind_eq_ok.mp h₄
  obtain ⟨firstBatch, hend, h₆⟩ := Attempt.bind_eq_ok.mp h₅
  obtain ⟨s₂, hs₂, h₇⟩ := Attempt.bind_eq_ok.mp h₆
  obtain ⟨s₃, hs₃, h₈⟩ := Attempt.bind_eq_ok.mp h₇
  cases h₈
  exact ⟨frames, firstFrame, uart, audio, format, firstBatch, s₁, s₂, hframes, huart, haudio,
    hformat, hend, hs₁, hs₂, hs₃, rfl⟩

/-- What registrations keep of a scheduler holds of that of a new machine. -/
theorem powerOn_keeps {K : Scheduler → Prop} (hnew : K .new)
    (hregister : ∀ {s s' time device tag}, s.register time device tag = .ok s' → K s → K s')
    (h : powerOn c .new = .ok w) : K w.scheduler := by
  obtain ⟨_, _, _, _, _, _, s₁, s₂, -, -, -, -, -, hs₁, hs₂, hs₃, -⟩ := powerOn_eq_ok h
  exact hregister hs₃ (hregister hs₂ (hregister hs₁ hnew))

theorem currentTime_powerOn (h : powerOn c .new = .ok w) : w.scheduler.currentTime = .zero :=
  powerOn_keeps (K := fun s => s.currentTime = .zero) rfl
    (fun hs hnow => (Scheduler.sameTime_register hs).currentTime.trans hnow) h

theorem sound_powerOn (h : powerOn c .new = .ok w) : w.scheduler.Sound :=
  powerOn_keeps (K := Scheduler.Sound) (.start .zero) (fun hs _ => .register hs) h

theorem isOwned_powerOn {device : DeviceId} (h : powerOn c .new = .ok w)
    (hd : device ≤ Peripherals.inputId) : w.isOwned device = true := by
  obtain ⟨_, _, _, _, _, _, _, _, -, -, -, -, -, -, -, -, hweq⟩ := powerOn_eq_ok h
  have hlt : device < 4 := Nat.lt_succ_of_le hd
  rw [hweq, World.isOwned, List.getElem?_replicate, if_pos hlt]

theorem inStep_of_powerOn (hc : c.Fits) (hpos : 0 < c.audioBatch)
    (h : powerOn c .new = .ok w) :
    World.InStep c [] .asap w ∧ w.devices.uart.value.receiver.arrived = [] := by
  obtain ⟨frames, firstFrame, uart, audio, format, firstBatch, s₁, s₂, hframes, huart, haudio,
    hformat, hend, hs₁, hs₂, hs₃, hw⟩ := powerOn_eq_ok h
  obtain ⟨hframes, hframe⟩ := FrameTimer.inStep_of_new c.video.steady hframes
  obtain ⟨huart, hsteady, harrived⟩ := Uart.inStep_of_new huart (Text.toOctets c.message)
  obtain ⟨haudio, hbatch⟩ := AudioSampler.inStep_of_new hpos hc.audioBatch haudio hformat hend
  have hnow₁ : s₁.currentTime = .zero := (Scheduler.sameTime_register hs₁).currentTime
  have hnow := currentTime_powerOn h
  have hdevices := congrArg World.devices hw
  -- the serial line wants to start at once, the others to be woken at instants that lie ahead
  have hwanted := Scheduler.wanted_register_of_perm
    (Scheduler.wanted_register_of_perm
      (Scheduler.wanted_register_of_perm (fun _ => .rfl) hs₁) hs₂) hs₃
  have hupcoming : w.scheduler.Upcoming .asap := by
    have hnone : Scheduler.new.Upcoming .asap := fun p hp => (by cases hp)
    have hfirst := hnone.register hs₁ (Or.inr hframe)
    have hsecond := hfirst.register hs₂ (Or.inr (hnow₁ ▸ hbatch))
    exact hsecond.register hs₃ (Or.inl rfl)
  refine ⟨⟨sound_powerOn h, ?_, congrArg World.lifetimes hw, fun _ => hupcoming, ?_⟩, ?_⟩
  · rw [hnow]
    exact Instant.early_zero.ne_asap
  · intro _
    rw [hnow, hdevices]
    refine Peripherals.InStep.of_perm ?_ hwanted
    refine ⟨hframes, huart, hsteady, haudio, rfl, ?_⟩
    intro device hother
    have hne : ∀ {n : DeviceId}, n ≤ Peripherals.inputId → device ≠ n :=
      fun hn => Nat.ne_of_gt (Nat.lt_of_le_of_lt hn hother)
    rw [Function.update_of_ne (hne (by decide)), Function.update_of_ne (hne (by decide)),
      Function.update_of_ne (hne (by decide))]
    exact Scheduler.wanted_start .zero device
  · rw [hdevices]
    exact harrived

theorem inStep_of_new (hc : c.Fits) (h : new c = .ok m) : InStep c m := by
  obtain ⟨hvalid, w, cpu, hw, -, rfl⟩ := new_eq_ok h
  obtain ⟨hworld, harrived⟩ := inStep_of_powerOn hc (c.pos_of_validate hvalid).2 hw
  exact ⟨hworld, fun _ => harrived⟩

/-- Every call leaves a machine in step with time. -/
theorem Reached.inStep (hc : c.Fits) (h : Reached c m) : InStep c m := by
  induction h with
  | made h => exact inStep_of_new hc h
  | ran _ h ih => exact ih.ran h
  | settled _ h ih => exact ih.settled h
  | injected _ h ih => exact ih.injected h
  | reported _ h ih => exact ih.reported h

/-- A report that a machine of a configuration makes some ticks after power-on. -/
def Reports (c : MachineConfig) (ticks : Nat) (r : MachineReport) : Prop :=
  ∃ m name wallSecs m', Reached c m ∧ report name wallSecs m = .ok r m' ∧
    m.scheduler.currentTime.ticks = ticks

end Machine

/-- What a report tells of the devices that run by themselves. -/
def MachineReport.results (r : MachineReport) : Nat × Nat × String × Nat × Nat :=
  (r.frames, r.serialBits, r.serialOutput, r.audioSamples, r.audioSamplesExpected)

/-- What a report at an instant has to tell: frames and bits are those that end up to then. -/
structure MachineReport.Exact (c : MachineConfig) (ticks : Nat) (r : MachineReport) : Prop where
  frames : (r.frames : ℕ∞) = Set.encard
    {n | 1 ≤ n ∧ n * (mainFreq * c.video.frameRate.2) / c.video.frameRate.1 ≤ ticks}
  serialBits : (r.serialBits : ℕ∞) = min ((10 * (Text.toOctets c.message).length : Nat) : ℕ∞)
    (Set.encard {k | 1 ≤ k ∧ k * mainFreq / c.baud ≤ ticks})
  serialOutput : r.serialOutput =
    Text.ofOctets ((Text.toOctets c.message).take (r.serialBits / 10))
  audioSamples : r.audioSamples = ticks * c.sampleRate / mainFreq
  audioSamplesExpected : r.audioSamplesExpected = ticks * c.sampleRate / mainFreq

theorem MachineReport.Exact.results_eq {c' : MachineConfig} {r' : MachineReport} {ticks : Nat}
    (h' : r'.Exact c' ticks) (h : r.Exact c ticks) (hvideo : c'.video = c.video)
    (hbaud : c'.baud = c.baud) (hmessage : c'.message = c.message)
    (hrate : c'.sampleRate = c.sampleRate) : r'.results = r.results := by
  have hframes : r'.frames = r.frames := by
    apply Nat.cast_injective (R := ℕ∞)
    rw [h'.frames, h.frames, hvideo]
  have hbits : r'.serialBits = r.serialBits := by
    apply Nat.cast_injective (R := ℕ∞)
    rw [h'.serialBits, h.serialBits, hbaud, hmessage]
  have hout : r'.serialOutput = r.serialOutput := by
    rw [h'.serialOutput, h.serialOutput, hbits, hmessage]
  have hsamples : r'.audioSamples = r.audioSamples := by
    rw [h'.audioSamples, h.audioSamples, hrate]
  have hexpected : r'.audioSamplesExpected = r.audioSamplesExpected := by
    rw [h'.audioSamplesExpected, h.audioSamplesExpected, hrate]
  rw [results, results, hframes, hbits, hout, hsamples, hexpected]

namespace Machine

theorem InStep.exact_report (h : InStep c m) (hnow : m.scheduler.currentTime.Early)
    (hr : report name wallSecs m = .ok r m') : r.Exact c m.scheduler.currentTime.ticks := by
  obtain ⟨a, ha, -, hframes, hbits, hout, hsamples, hexpected, -⟩ := report_eq_ok hr
  have hdevices := h.world.devices hnow
  have hahead := h.world.ahead hnow
  have husable := hdevices.audio.usable
  have hticks : m.scheduler.currentTime.ticks < 9223372036854775808 := hnow
  refine ⟨?_, ?_, ?_, ?_, ?_⟩
  · rw [hframes]
    exact hdevices.frames.frames_eq c.video.steady hnow (hahead _)
  · have hbits' := hdevices.uart.bitsSent_eq hdevices.baud_steady hnow (hahead _)
    simp only [Clock.grid_one] at hbits'
    rw [hbits]
    exact hbits'
  · rw [hout, hbits]
    exact congrArg Text.ofOctets (hdevices.uart.fetched_eq (h.fetched hnow))
  · rw [hsamples, (hdevices.account hnow ha).1]
    rfl
  · rw [hexpected, husable.rate_eq, Instant.periods, Nat.mod_eq_of_lt]
    have hfew := AudioSampler.samples_le husable.slow m.scheduler.currentTime.ticks
    have hword : UInt64.size = 18446744073709551616 := rfl
    omega

theorem Reports.exact {ticks : Nat} (hr : Reports c ticks r) (hc : c.Fits)
    (hticks : ticks < 2 ^ 63) : r.Exact c ticks := by
  obtain ⟨m, name, wallSecs, m', hm, hreport, rfl⟩ := hr
  exact (hm.inStep hc).exact_report hticks hreport

/-- At a given time all machines with the same devices report the same, whatever CPU they have and
however they came there. -/
theorem reports_follow_from_time {ticks : Nat} (hc : c.Fits) (hr : Reports c ticks r)
    (hticks : ticks < 2 ^ 63) :
    r.Exact c ticks ∧
      ∀ (c' : MachineConfig) (r' : MachineReport), c'.Fits → c'.video = c.video →
        c'.baud = c.baud → c'.message = c.message → c'.sampleRate = c.sampleRate →
          Reports c' ticks r' → r'.results = r.results := by
  refine ⟨hr.exact hc hticks, ?_⟩
  intro c' r' hc' hvideo hbaud hmessage hrate hr'
  exact (hr'.exact hc' hticks).results_eq (hr.exact hc hticks) hvideo hbaud hmessage hrate

/-- What a machine reports after one step of its CPU, and when. -/
def firstReport (c : MachineConfig) (steps : Nat) : Option (Nat × MachineReport) :=
  match new c with
  | .error _ => none
  | .ok m =>
    match settle steps m with
    | .error _ _ => none
    | .ok _ m =>
      match report "" 0 m with
      | .error _ _ => none
      | .ok r _ => some (m.scheduler.currentTime.ticks, r)

theorem reports_of_firstReport {ticks : Nat} (h : firstReport c steps = some (ticks, r)) :
    Reports c ticks r := by
  rw [firstReport] at h
  split at h
  · cases h
  · rename_i m hm
    split at h
    · cases h
    · rename_i m' hsettle
      split at h
      · cases h
      · rename_i r' m'' hreport
        cases h
        exact ⟨m', "", 0, m'', .settled (.made hm) hsettle, hreport, rfl⟩

/-- One instruction takes longer than a frame and than the whole message. -/
def slowCpu : MachineConfig where
  cpuFreq := 30
  cyclesPerInstr := 1
  video := .ntsc
  baud := 300
  message := "A"
  sampleRate := 100
  audioBatch := 1
  runMsec := 0
  hotplugEvents := 0

theorem slowCpu_fits : slowCpu.Fits := by
  constructor
  all_goals decide

theorem reports_follow_from_time_slow_cpu :
    ∃ r, slowCpu.Fits ∧ Reports slowCpu 114545440 r ∧ r.results = (1, 10, "A", 3, 3) ∧
      r.Exact slowCpu 114545440 := by
  have hresults : (firstReport slowCpu 20).map (fun p => (p.1, p.2.results)) =
      some (114545440, 1, 10, "A", 3, 3) := by
    decide +kernel
  obtain ⟨⟨ticks, r⟩, hfirst, heq⟩ := Option.map_eq_some_iff.mp hresults
  obtain ⟨rfl, hresults⟩ := Prod.mk.inj heq
  have hreports := reports_of_firstReport hfirst
  exact ⟨r, slowCpu_fits, hreports, hresults,
    (reports_follow_from_time slowCpu_fits hreports (by decide)).1⟩

end Machine
end Timebase
