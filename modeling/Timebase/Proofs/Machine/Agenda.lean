import Mathlib.Order.Bounds.Defs
import Timebase.Proofs.Machine.Endurance

/-!
# What machines have pending

The frame timer and the sampler ask for their next wake-up each time they are woken, the serial line
does so while it is busy, and each byte that comes in asks for one. Between two calls nothing else
is pending, and nothing of it is missing.
-/

namespace Timebase

variable {c : MachineConfig} {out : List UInt8} {w v : World Peripherals} {m m' : Machine}
  {now t limit : Instant} {wanted : List Request} {steps : Nat} {thread : ThreadId}

section

variable {α κ : Type} [DecidableEq κ]

theorem perm_flatMap_filter (key : α → κ) {keys : List κ} (hnodup : keys.Nodup) {l : List α}
    (h : ∀ a ∈ l, key a ∈ keys) :
    l.Perm (keys.flatMap fun k => l.filter fun a => key a == k) := by
  induction keys generalizing l with
  | nil =>
    rw [List.eq_nil_iff_forall_not_mem.mpr fun a ha => List.not_mem_nil (h a ha)]
    exact .nil
  | cons k keys ih =>
    obtain ⟨hnew, hnodup⟩ := List.nodup_cons.mp hnodup
    have hrest : ∀ a ∈ l.filter (fun a => !(key a == k)), key a ∈ keys := by
      intro a ha
      obtain ⟨ha, hne⟩ := List.mem_filter.mp ha
      exact (List.mem_cons.mp (h a ha)).resolve_left (by simpa using hne)
    have hkeys : (keys.flatMap fun k' => (l.filter fun a => !(key a == k)).filter fun a =>
        key a == k') = keys.flatMap fun k' => l.filter fun a => key a == k' := by
      apply List.flatMap_congr
      intro k' hk'
      rw [List.filter_filter]
      apply List.filter_congr
      intro a _
      by_cases hk : key a = k'
      · have hne : k' ≠ k := fun heq => hnew (heq ▸ hk')
        simp [hk, hne]
      · simp [hk]
    have hperm := ih hnodup hrest
    rw [hkeys] at hperm
    exact (List.filter_append_perm (fun a => key a == k) l).symm.trans (hperm.append_left _)

end

theorem Scheduler.perm_wanted (s : Scheduler) {devices : List DeviceId} (hnodup : devices.Nodup)
    (h : ∀ p ∈ s.queue, p.device ∈ devices) :
    (s.queue.map fun p => (p.device, (⟨p.time, p.tag⟩ : Request))).Perm
      (devices.flatMap fun device => (s.wanted device).map (device, ·)) := by
  have hperm := (perm_flatMap_filter SyncPoint.device hnodup h).map
    fun p => (p.device, (⟨p.time, p.tag⟩ : Request))
  rw [List.map_flatMap] at hperm
  have hwanted : (devices.flatMap fun device => (s.queue.filter fun p => p.device == device).map
      fun p => (p.device, (⟨p.time, p.tag⟩ : Request))) =
      devices.flatMap fun device => (s.wanted device).map (device, ·) := by
    apply List.flatMap_congr
    intro device _
    rw [Scheduler.wanted, List.map_map]
    apply List.map_congr_left
    intro p hp
    rw [← beq_iff_eq.mp (List.mem_filter.mp hp).2]
    rfl
  rw [hwanted] at hperm
  exact hperm

theorem FrameTimer.InStep.wanted_eq {num den : Nat} {f : FrameTimer} (hs : Clock.Steady num den)
    (h : FrameTimer.InStep num den now f wanted) (hnow : now.Early) :
    ∃ t, wanted = [⟨t, FrameTimer.frameEnd⟩] ∧ t.ticks = Clock.grid num den (f.frames + 1) := by
  have hexact := hs.next_exact hnow h.passed
  exact ⟨_, h.wanted, Instant.wrap_ticks (by omega)⟩

theorem Uart.InStep.length_wanted {baud : Nat} {message : List UInt8} {u : Uart}
    (h : Uart.InStep baud message out now u wanted) :
    wanted.length = if u.busy then 1 else 0 := by
  cases h with
  | waiting _ _ busy => simp [busy]
  | sending _ _ _ busy => simp [busy]
  | done _ busy => simp [busy]

theorem AudioFormat.batchTicks_eq {rate batch : Nat} {f : AudioFormat}
    (h : AudioFormat.new rate batch = .ok f) (hpos : 0 < f.batchTicks)
    (hlt : batch < UInt64.size) : f.batchTicks = mainFreq / rate * batch := by
  obtain ⟨period, hperiod, h⟩ := Attempt.bind_eq_ok.mp h
  obtain ⟨span, hspan, h⟩ := Attempt.bind_eq_ok.mp h
  cases h
  obtain ⟨-, hsome, hticks⟩ := Span.periodChecked_eq_ok hperiod
  have hproduct : span.ticks = period.ticks * Int.bmod batch UInt64.size :=
    Span.ticks_of_checked_eq_ok hspan
  have hspan : 0 < span.ticks := Int.lt_toNat.mp hpos
  have hsigned : 0 < Int.bmod batch UInt64.size := by
    rw [hproduct] at hspan
    exact (mul_pos_iff_of_pos_left hsome).mp hspan
  have hbatch : Int.bmod batch UInt64.size = batch := by
    simp only [Int.bmod, UInt64.size] at hsigned hlt ⊢
    omega
  rw [batchTicks]
  show span.ticks.toNat = _
  rw [hproduct, hbatch, hticks, ← Int.natCast_mul, Int.toNat_natCast]

/-- A sampler wants to be woken at the first end of a batch that is still to come. -/
theorem AudioSampler.InStep.wanted_eq {rate : Nat} {f : AudioFormat} {a : AudioSampler}
    (h : AudioSampler.InStep rate now f a wanted) (hnow : now.Early)
    (hahead : ∀ q ∈ wanted, q.time ≠ .asap → now < q.time) :
    ∃ t, wanted = [⟨t, AudioFormat.batchEnd⟩] ∧
      IsLeast {n | f.batchTicks ∣ n ∧ now.ticks < n} t.ticks := by
  obtain ⟨n, hwanted, hn⟩ := h.wanted
  have hpos := h.usable.batch_pos
  have hbatch := f.batchTicks_lt
  have hearly : now.ticks < 9223372036854775808 := hnow
  have hword : UInt64.size = 18446744073709551616 := rfl
  have hsucc : (n + 1) * f.batchTicks = n * f.batchTicks + f.batchTicks := Nat.succ_mul _ _
  have hne : Instant.wrap ((n + 1) * f.batchTicks) ≠ .asap := Instant.wrap_ne_asap (by omega)
  have hticks := Instant.wrap_ticks (n := (n + 1) * f.batchTicks) (by omega)
  have hlater : now.ticks < (n + 1) * f.batchTicks := by
    have hlt := hahead _ (hwanted ▸ List.mem_cons_self) hne
    rw [Instant.lt_iff_ticks hnow.ne_asap hne, hticks] at hlt
    exact hlt
  refine ⟨_, hwanted, ?_⟩
  rw [hticks]
  refine ⟨⟨Nat.dvd_mul_left _ _, hlater⟩, ?_⟩
  rintro _ ⟨⟨k, rfl⟩, hk⟩
  have hnk : n < k := by
    apply Nat.lt_of_mul_lt_mul_left (a := f.batchTicks)
    rw [Nat.mul_comm]
    omega
  rw [Nat.mul_comm]
  exact Nat.mul_le_mul_left _ hnk

theorem Peripherals.Answers.audioFormat {device : DeviceId} {tag : Tag} {p p' : Peripherals}
    {asked : Option Request} (h : Peripherals.Answers t p device tag p' asked) :
    p'.audioFormat = p.audioFormat := by
  cases h <;> rfl

theorem World.InStep.device_mem (h : World.InStep c out limit w)
    (hnow : w.scheduler.currentTime.Early) :
    ∀ p ∈ w.scheduler.queue, p.device ∈ [Peripherals.framesId, Peripherals.audioId,
      Peripherals.uartId, Peripherals.inputId] := by
  intro p hp
  by_contra hnone
  simp only [List.mem_cons, List.not_mem_nil, or_false, not_or] at hnone
  obtain ⟨hframes, haudio, huart, hinput⟩ := hnone
  have hwanted := Scheduler.mem_wanted_of_mem hp
  rw [(h.devices hnow).others _ (Peripherals.inputId_lt hframes huart haudio hinput)] at hwanted
  cases hwanted

theorem World.InStep.audioFormat_of_schedule (h : World.InStep c out .asap w)
    (hv : World.schedule Peripherals.wake steps thread limit w = .ok () v) :
    v.devices.audioFormat = w.devices.audioFormat := by
  obtain ⟨hl, ⟨-, rfl⟩ | ⟨u, hu, -, rfl⟩⟩ := World.schedule_eq_ok hv
  · rfl
  · have hentered := (h.upTo limit).of_samePending
      (Scheduler.samePending_enteredBy thread w.scheduler) rfl
    have hkept := World.dispatch_keeps
      (I := fun u => World.InStep c out limit u ∧ u.devices.audioFormat = w.devices.audioFormat)
      (fun hu hd hp => by
        obtain ⟨asked, ha, -⟩ := hu.1.deliver_eq_ok hp
        exact ⟨hu.1.deliver hd hp, ha.audioFormat.trans hu.2⟩)
      hu ⟨hentered, rfl⟩
    exact hkept.2

namespace Machine

theorem driver_keeps_format {f : AudioFormat}
    (hv : (driver steps).schedule limit w = .ok () v)
    (hw : World.InStep c out .asap w ∧ w.devices.audioFormat = f) :
    World.InStep c out .asap v ∧ v.devices.audioFormat = f :=
  ⟨hw.1.schedule hv, (hw.1.audioFormat_of_schedule hv).trans hw.2⟩

theorem Reached.audioFormat (hc : c.Fits) (hm : Reached c m) :
    AudioFormat.new c.sampleRate c.audioBatch = .ok m.rig.world.devices.audioFormat := by
  induction hm with
  | made h =>
    obtain ⟨-, w, cpu, hw, -, rfl⟩ := new_eq_ok h
    obtain ⟨_, _, _, _, format, _, _, _, -, -, -, hformat, -, -, -, -, hweq⟩ := powerOn_eq_ok hw
    rw [hformat, hweq]
  | ran hm h ih =>
    obtain ⟨rig, hrig, rfl⟩ := runFor_eq_ok h
    have hkept := Rig.runFor_keeps driver_keeps_format hrig ⟨(hm.inStep hc).world, rfl⟩
    exact ih.trans (congrArg _ hkept.2.symm)
  | settled hm h ih =>
    obtain ⟨rig, hrig, rfl⟩ := settle_eq_ok h
    have hkept := Rig.step_keeps driver_keeps_format hrig ⟨(hm.inStep hc).world, rfl⟩
    exact ih.trans (congrArg _ hkept.2.symm)
  | injected _ h ih =>
    obtain ⟨v, hv, rfl⟩ := onWorld_eq_ok h
    obtain ⟨-, hveq⟩ := Peripherals.inject_eq_ok hv
    rw [ih, hveq]
  | reported _ h ih =>
    obtain ⟨a, -, rfl, -⟩ := report_eq_ok h
    exact ih

/-- What is pending between two calls: the end of a frame and that of a batch, something of the
serial line while it is busy, and an arrival for each byte that waits. -/
theorem Reached.perm_queue (hc : c.Fits) (hm : Reached c m) (hearly : m.time.Early) :
    ∃ (frame batch : Instant) (line : List Request),
      frame.ticks = (m.rig.world.devices.frames.value.frames + 1) *
        (mainFreq * c.video.frameRate.2) / c.video.frameRate.1 ∧
      IsLeast {n | mainFreq / c.sampleRate * c.audioBatch ∣ n ∧ m.scheduler.currentTime.ticks < n}
        batch.ticks ∧
      line.length = (if m.rig.world.devices.uart.value.busy then 1 else 0) ∧
      (m.scheduler.queue.map fun p => (p.device, (⟨p.time, p.tag⟩ : Request))).Perm
        ((Peripherals.framesId, ⟨frame, FrameTimer.frameEnd⟩) ::
          (Peripherals.audioId, ⟨batch, AudioFormat.batchEnd⟩) ::
          (line.map (Peripherals.uartId, ·) ++
            List.replicate m.rig.world.devices.input.waiting.length
              (Peripherals.inputId, ⟨.asap, InputPort.arrival⟩))) := by
  have hstep := (hm.inStep hc).world
  have hnow : m.scheduler.currentTime.Early := by
    rw [hm.lockstep.level]
    exact hearly
  have hdevices := hstep.devices hnow
  obtain ⟨frame, hframe, hend⟩ := hdevices.frames.wanted_eq c.video.steady hnow
  obtain ⟨batch, hbatch, hleast⟩ := hdevices.audio.wanted_eq hnow (hstep.ahead hnow _)
  rw [AudioFormat.batchTicks_eq (hm.audioFormat hc) hdevices.audio.usable.batch_pos
    hc.audioBatch] at hleast
  refine ⟨frame, batch, m.scheduler.wanted Peripherals.uartId, hend, hleast,
    hdevices.uart.length_wanted, ?_⟩
  have hperm := m.scheduler.perm_wanted (by decide) (hstep.device_mem hnow)
  simp only [List.flatMap_cons, List.flatMap_nil, List.append_nil] at hperm
  rw [show m.scheduler.wanted Peripherals.framesId = _ from hframe,
    show m.scheduler.wanted Peripherals.audioId = _ from hbatch,
    show m.scheduler.wanted Peripherals.inputId = _ from hdevices.input, List.map_replicate] at hperm
  exact hperm

/-- Whether an order makes a machine run. -/
def Order.runs : Order → Bool
  | .runFor _ _ | .settle _ => true
  | .inject _ | .report _ _ => false

theorem Reached.no_asap {order : Order} (hm : Reached c m) (hruns : order.runs = true)
    (h : order.run m = .ok () m') : ∀ p ∈ m'.scheduler.queue, p.time ≠ .asap := by
  cases order with
  | runFor steps span =>
    obtain ⟨rig, rfl, hlevel, -⟩ := hm.lockstep.ran_level h
    exact hlevel.no_asap
  | settle steps =>
    obtain ⟨rig, rfl, hlevel, -⟩ := hm.lockstep.settled_level h
    exact hlevel.no_asap
  | inject | report => cases hruns

theorem obey_of_ok {orders : List Order} (h : orders.forM Order.run m = .ok () m') :
    m.obey orders = m' := by
  induction orders generalizing m with
  | nil =>
    cases h
    rfl
  | cons order orders ih =>
    obtain ⟨_, m₁, hfirst, hrest⟩ := Run.bind_eq_ok.mp h
    show (order.run.after m).obey orders = m'
    rw [Run.after_of_ok hfirst]
    exact ih hrest

/-- A machine that has run reports the wake-ups of its devices as pending, and nothing else. -/
theorem Reached.pendingSyncPoints (hc : c.Fits) (hm : Reached c m) (hearly : m.time.Early)
    (name : String) (wallSecs : Float) (hpast : ∀ p ∈ m.scheduler.queue, p.time ≠ .asap) :
    ∃ r m', report name wallSecs m = .ok r m' ∧
      r.pendingSyncPoints = 2 + if m.rig.world.devices.uart.value.busy then 1 else 0 := by
  obtain ⟨r, m', hr, -⟩ := report_ready name wallSecs hearly ((hm.lived.endures hc).ready hearly)
  refine ⟨r, m', hr, ?_⟩
  obtain ⟨_, -, -, -, -, -, -, -, -, -, hsize⟩ := report_eq_ok hr
  obtain ⟨frame, batch, line, -, -, hline, hperm⟩ := hm.perm_queue hc hearly
  have hnone : m.rig.world.devices.input.waiting.length = 0 := by
    by_contra hsome
    have harrival : (Peripherals.inputId, (⟨.asap, InputPort.arrival⟩ : Request)) ∈
        m.scheduler.queue.map fun p => (p.device, (⟨p.time, p.tag⟩ : Request)) :=
      hperm.mem_iff.mpr (by simp [hsome])
    obtain ⟨p, hp, heq⟩ := List.mem_map.mp harrival
    exact hpast p hp (congrArg (fun q => q.2.time) heq)
  have hlength := hperm.length_eq
  simp only [List.length_map, List.length_cons, List.length_append, List.length_replicate, hnone,
    hline] at hlength
  rw [hsize, m.scheduler.size_eq_length]
  omega

/-- Whatever a machine was asked for, each of its devices has just the wake-up pending that it needs
to go on, and each byte that waits has one. -/
theorem machines_keep_their_agenda {m₀ : Machine} {orders : List Order} (hc : c.Fits)
    (hnew : new c = .ok m₀) (hrun : orders.forM Order.run m₀ = .ok () m) :
    (m.time.ticks < 2 ^ 63 →
      ∃ (frame batch : Instant) (line : List Request) (waiting : List UInt8),
        frame.ticks = (m.rig.world.devices.frames.value.frames + 1) *
          (mainFreq * c.video.frameRate.2) / c.video.frameRate.1 ∧
        IsLeast {n | mainFreq / c.sampleRate * c.audioBatch ∣ n ∧
          m.scheduler.currentTime.ticks < n} batch.ticks ∧
        line.length = (if m.rig.world.devices.uart.value.busy then 1 else 0) ∧
        m.latched.map Prod.snd ++ waiting = orders.flatMap Order.input ∧
        (m.scheduler.queue.map fun p => (p.device, (⟨p.time, p.tag⟩ : Request))).Perm
          ((Peripherals.framesId, ⟨frame, FrameTimer.frameEnd⟩) ::
            (Peripherals.audioId, ⟨batch, AudioFormat.batchEnd⟩) ::
            (line.map (Peripherals.uartId, ·) ++
              List.replicate waiting.length (Peripherals.inputId, ⟨.asap, InputPort.arrival⟩)))) ∧
    ∀ (last : Order) (m' : Machine), last.runs = true → last.run m = .ok () m' →
      m'.time.ticks < 2 ^ 63 → ∀ name wallSecs, ∃ r m'',
        report name wallSecs m' = .ok r m'' ∧
          r.pendingSyncPoints = 2 + if m'.rig.world.devices.uart.value.busy then 1 else 0 := by
  have hm : Reached c m := (Reached.made hnew).orders hrun
  refine ⟨fun hearly => ?_, fun last m' hruns hlast hearly name wallSecs => ?_⟩
  · obtain ⟨frame, batch, line, hframe, hbatch, hline, hperm⟩ := hm.perm_queue hc hearly
    have htallied := tallied_obey (tallied_new hnew) orders
    rw [obey_of_ok hrun] at htallied
    exact ⟨frame, batch, line, _, hframe, hbatch, hline, htallied.ledger.1, hperm⟩
  · have hm' := hm.order hlast
    exact hm'.pendingSyncPoints hc hearly name wallSecs (hm.no_asap hruns hlast)

/-- The first bit of the message is on the line, and a byte has just come in. -/
theorem machines_keep_their_agenda_usual :
    ∃ m, trial .default [.runFor 40 (.wrap 20000), .inject 65] = some m ∧
      (∃ (frame batch : Instant) (line : List Request), frame.ticks = 57346560 ∧
        IsLeast {n | 18327040 ∣ n ∧ 23040 < n} batch.ticks ∧ line.length = 1 ∧
        (m.scheduler.queue.map fun p => (p.device, (⟨p.time, p.tag⟩ : Request))).Perm
          ((Peripherals.framesId, ⟨frame, FrameTimer.frameEnd⟩) ::
            (Peripherals.audioId, ⟨batch, AudioFormat.batchEnd⟩) ::
            (line.map (Peripherals.uartId, ·) ++
              [(Peripherals.inputId, ⟨.asap, InputPort.arrival⟩)]))) ∧
      ∃ r m', report "" 0 ((Order.settle 20).run.after m) = .ok r m' ∧ r.pendingSyncPoints = 3 := by
  obtain ⟨m, hm, htime, hnow, hframes, hbusy, hlatched, hends, hlater, hstill⟩ :
      ∃ m ∈ trial .default [.runFor 40 (.wrap 20000), .inject 65],
        m.time.ticks = 23040 ∧ m.scheduler.currentTime.ticks = 23040 ∧
        m.rig.world.devices.frames.value.frames = 0 ∧
        m.rig.world.devices.uart.value.busy = true ∧ m.latched.map Prod.snd = [] ∧
        (Order.settle 20).run.ends m = true ∧
        ((Order.settle 20).run.after m).time.ticks = 34560 ∧
        ((Order.settle 20).run.after m).rig.world.devices.uart.value.busy = true := by
    decide +kernel
  obtain ⟨m₀, hnew, hrun⟩ := trial_eq_some hm
  have hfits : MachineConfig.default.Fits := by
    constructor
    all_goals decide
  obtain ⟨hqueue, hreport⟩ := machines_keep_their_agenda hfits hnew hrun
  obtain ⟨frame, batch, line, waiting, hframe, hbatch, hline, hwaiting, hperm⟩ :=
    hqueue (by rw [htime]; decide)
  obtain ⟨r, m', hr, hpending⟩ := hreport (.settle 20) _ rfl (Run.eq_ok_of_ends hends)
    (by rw [hlater]; decide) "" 0
  rw [hframes] at hframe
  rw [hnow] at hbatch
  rw [hbusy] at hline
  rw [hlatched] at hwaiting
  have hwaiting : waiting = [65] := hwaiting
  rw [hwaiting] at hperm
  rw [hstill] at hpending
  exact ⟨m, hm, ⟨frame, batch, line, hframe, hbatch, hline, hperm⟩, r, m', hr, hpending⟩

end Machine
end Timebase
