import Timebase.Proofs.Device.Waking
import Timebase.Proofs.Machine.Lockstep
import Timebase.Proofs.Workload

/-!
# Machines deliver everything

A device of a machine that is woken in the first half of the count answers, and asks for a wake-up
that lies ahead, if for any. So whatever is due is delivered: no device breaks off, and there is an
end to it.
-/

namespace Timebase

variable {c : MachineConfig} {out : List UInt8} {t limit : Instant} {p p' : Peripherals}
  {wanted : DeviceId → List Request} {device : DeviceId} {tag : Tag} {r : Request}
  {asked : Option Request} {w v : World Peripherals} {s s' : Scheduler} {steps : Nat}

namespace Peripherals

/-- No device is left in doubt. -/
structure Usable (p : Peripherals) : Prop where
  frames : p.frames.poisoned = false
  uart : p.uart.poisoned = false
  audio : p.audio.poisoned = false

theorem Answers.usable (h : Answers t p device tag p' asked) (hp : Usable p) : Usable p' := by
  cases h with
  | frames => exact ⟨rfl, hp.uart, hp.audio⟩
  | uart => exact ⟨hp.frames, rfl, hp.audio⟩
  | audio => exact ⟨hp.frames, hp.uart, rfl⟩
  | input => exact ⟨hp.frames, hp.uart, hp.audio⟩
  | other => exact hp

theorem InStep.answers_ok (h : InStep c out t p wanted) (ht : t.Early) (hr : r ∈ wanted device)
    (htime : r.time = .asap ∨ r.time = t) : ∃ p' asked, Answers t p device r.tag p' asked := by
  match device with
  | 0 =>
    obtain ⟨q, f, hwake⟩ := h.frames.wake_ok c.video.steady ht hr htime
    exact ⟨_, _, .frames hwake⟩
  | 1 =>
    obtain ⟨asked, u, hwake⟩ := h.uart.wake_ok h.baud_steady ht hr htime
    exact ⟨_, _, .uart hwake⟩
  | 2 =>
    obtain ⟨a, hupdate⟩ := h.audio.update_ok ht
    obtain ⟨q, hend⟩ := AudioFormat.endOfBatch_ok h.audio.usable.batch_pos ht
    exact ⟨_, _, .audio hupdate hend⟩
  | 3 => exact ⟨_, _, .input⟩
  | n + 4 => exact ⟨_, _, .other (Nat.lt_add_left n (Nat.lt_succ_self 3))⟩

theorem onPart_of_ok {α τ : Type} (part : Part Peripherals (Guarded τ)) {act : Run τ α} {a : α}
    {value : τ} (hpart : (part.get w.devices).poisoned = false)
    (h : act (part.get w.devices).value = .ok a value) :
    World.onDevices (Run.on part (Guarded.access act)) w =
      .ok a { w with devices := part.set (.new value) w.devices } :=
  Run.on_of_ok (Run.on_of_ok (Run.access_of_unpoisoned hpart h))

theorem request_of_ok (h : w.scheduler.register r.time device r.tag = .ok s) :
    request device r w = .ok () { w with scheduler := s } := World.register_of_ok h

/-- A wake-up succeeds where the device answers and what it asks for can be registered. -/
theorem wake_of_answers (hp : Usable w.devices) (ha : Answers t w.devices device tag p asked)
    (hr : Registers device asked w.scheduler s) :
    wake device t tag w = .ok () { w with devices := p, scheduler := s } := by
  cases ha with
  | frames hwake =>
    have hanswer := onPart_of_ok framesPart hp.frames hwake
    rw [wake, if_pos rfl]
    exact (Run.bind_of_ok hanswer).trans (request_of_ok hr)
  | @uart _ _ asked hwake =>
    have hanswer := onPart_of_ok uartPart hp.uart hwake
    rw [wake, if_neg (by decide), if_pos rfl]
    refine (Run.bind_of_ok hanswer).trans ?_
    cases asked with
    | some r => exact request_of_ok hr
    | none =>
      cases hr
      rfl
  | audio hupdate hend =>
    have hanswer := onPart_of_ok audioPart hp.audio hupdate
    rw [wake, if_neg (by decide), if_neg (by decide), if_pos rfl]
    refine (Run.bind_of_ok hanswer).trans ?_
    exact (Run.bind_of_ok (Run.lift_eq_ok.mpr ⟨hend, rfl⟩)).trans (request_of_ok hr)
  | input =>
    cases hr
    rfl
  | other hother =>
    cases hr
    have hne : ∀ {n : DeviceId}, n ≤ inputId → device ≠ n :=
      fun hn => Nat.ne_of_gt (Nat.lt_of_le_of_lt hn hother)
    rw [wake, if_neg (hne (by decide)), if_neg (hne (by decide)), if_neg (hne (by decide)),
      if_neg (hne (by decide))]
    rfl

theorem Registers.of_ahead (device : DeviceId) (h : ∀ q ∈ asked, s.currentTime < q.time) :
    ∃ s', Registers device asked s s' := by
  cases asked with
  | some q =>
    exact ⟨_, Scheduler.register_eq_ok.mpr ⟨Or.inr (Instant.le_of_lt (h q rfl)), rfl⟩⟩
  | none => exact ⟨s, rfl⟩

theorem Registers.workload_lt {s₀ : Scheduler} {q : SyncPoint}
    (h : Registers q.device asked s s') (hd : s₀.takeDue limit = (some (q, t), s))
    (hasked : ∀ r ∈ asked, t < r.time) : s'.workload limit < s₀.workload limit := by
  obtain ⟨rest, -, hdue, htime, -⟩ := Scheduler.takeDue_eq_some.mp hd
  rw [Scheduler.workload_takeDue hd]
  cases asked with
  | some r =>
    have hfirst : q.time ≤ t := by
      rw [htime]
      exact Scheduler.time_le_deliveryTime q s₀
    have hless := Instant.upTo_lt hdue (Instant.lt_of_le_of_lt hfirst (hasked r rfl))
    rw [Scheduler.workload_register h]
    exact Nat.add_lt_add_right hless _
  | none =>
    cases h
    exact Nat.lt_add_of_pos_left (Instant.upTo_pos hdue)

end Peripherals

namespace World

/-- Time may be moved by the thread that drives a machine, and nobody is about it. -/
structure Free (w : World Peripherals) : Prop where
  owner : w.scheduler.owner.getD Machine.mainThread = Machine.mainThread
  idle : w.scheduler.dispatching = false

/-- A machine's world that is in step with time, with all its devices in order. -/
structure InOrder (c : MachineConfig) (out : List UInt8) (limit : Instant)
    (w : World Peripherals) : Prop extends InStep c out limit w where
  usable : w.devices.Usable

namespace InOrder

theorem of_samePending (h : InOrder c out limit w) (hs : w.scheduler.SamePending s)
    (ht : s.currentTime = w.scheduler.currentTime) :
    InOrder c out limit { w with scheduler := s } := ⟨h.toInStep.of_samePending hs ht, h.usable⟩

theorem upTo (h : InOrder c out .asap w) (limit : Instant) : InOrder c out limit w :=
  ⟨h.toInStep.upTo limit, h.usable⟩

variable {p : SyncPoint}

theorem deliver (h : InOrder c out limit w) (hd : w.scheduler.takeDue limit = (some (p, t), s))
    (hp : World.deliver Peripherals.wake p t { w with scheduler := s } = .ok () v) :
    InOrder c out limit v := by
  obtain ⟨asked, ha, hr, hl⟩ := h.deliver_eq_ok hp
  exact ⟨h.woken hd ha hr hl, ha.usable h.usable⟩

/-- In the first half of the count the device of whatever is due answers, and can register what it
asks for. -/
theorem answers (h : InOrder c out limit w) (ht : t.Early)
    (hd : w.scheduler.takeDue limit = (some (p, t), s)) :
    ∃ devices asked s', Peripherals.Answers t w.devices p.device p.tag devices asked ∧
      Peripherals.Registers p.device asked s s' ∧ (∀ q ∈ asked, t < q.time) ∧
      ({ w with scheduler := s } : World Peripherals).isAlive p.device = true := by
  obtain ⟨rest, -, -, htime, hs⟩ := Scheduler.takeDue_eq_some.mp hd
  have hsnow : s.currentTime = t := by
    rw [hs, htime]
  obtain ⟨hstep, hptime⟩ := h.due hd ht
  have hfirst := Scheduler.wanted_takeDue_self hd
  have hmem : (⟨p.time, p.tag⟩ : Request) ∈ w.scheduler.wanted p.device := by
    rw [hfirst]
    exact List.mem_cons_self
  obtain ⟨devices, asked, ha⟩ := hstep.answers_ok ht hmem hptime
  obtain ⟨-, hahead⟩ := hstep.answers ht hfirst hptime ha
  obtain ⟨s', hr⟩ := Peripherals.Registers.of_ahead (s := s) p.device (hsnow ▸ hahead)
  refine ⟨devices, asked, s', ha, hr, hahead, ?_⟩
  cases hgone : ({ w with scheduler := s } : World Peripherals).isAlive p.device with
  | true => rfl
  | false =>
    have hnone := hstep.others p.device (h.inputId_lt_of_gone hgone)
    rw [hnone] at hmem
    cases hmem

theorem progresses (c : MachineConfig) (out : List UInt8) (hlimit : limit.Early) :
    Progresses Peripherals.wake limit fun w =>
      InOrder c out limit w ∧ w.scheduler.currentTime ≤ limit := by
  rintro w p t s ⟨h, hle⟩ hd
  obtain ⟨rest, -, hdue, htime, hs⟩ := Scheduler.takeDue_eq_some.mp hd
  have htle : t ≤ limit := by
    rw [htime]
    exact Scheduler.deliveryTime_le hdue hle
  have ht : t.Early := by
    apply hlimit.of_le ?_ htle
    rw [htime]
    exact Scheduler.deliveryTime_ne_asap h.timed
  obtain ⟨devices, asked, s', ha, hr, hahead, halive⟩ := h.answers ht hd
  have hwake := Peripherals.wake_of_answers
    (w := ({ w with scheduler := s } : World Peripherals).retain p.device) h.usable ha hr
  refine ⟨{ w with devices := devices, scheduler := s' }, ?_, ?_⟩
  · rw [deliver_of_alive halive, during_of_ok hwake]
    exact congrArg _ (release_of_owned h.lifetimes rfl)
  · have hnow : s'.currentTime = t := by
      rw [hr.currentTime, hs, htime]
    refine ⟨⟨⟨h.woken hd ha hr rfl, ha.usable h.usable⟩, ?_⟩, hr.workload_lt hd hahead⟩
    exact hnow.symm ▸ htle

end InOrder

/-- A machine's world between calls, to be moved to a limit that it has not passed. -/
structure Ready (c : MachineConfig) (out : List UInt8) (limit : Instant) (w : World Peripherals) :
    Prop extends InOrder c out .asap w, Free w where
  behind : w.scheduler.currentTime ≤ limit

namespace Ready

theorem later {limit' : Instant} (h : Ready c out limit w) (hle : limit ≤ limit') :
    Ready c out limit' w := ⟨h.toInOrder, h.toFree, Instant.le_trans h.behind hle⟩

private theorem entered (h : Ready c out limit w) :
    InOrder c out limit { w with scheduler := w.scheduler.enteredBy Machine.mainThread } :=
  (h.upTo limit).of_samePending (Scheduler.samePending_enteredBy _ _) rfl

/-- In the first half of the count moving time comes to its end, after no more wake-ups than there
may be to deliver. -/
theorem schedule_ends (h : Ready c out limit w) (hlimit : limit.Early) :
    ∃ v, ∀ steps, w.scheduler.workload limit < steps →
      World.schedule Peripherals.wake steps Machine.mainThread limit w = .ok () v :=
  (InOrder.progresses c out hlimit).schedule_ends h.owner h.idle hlimit.ne_asap
    ⟨h.entered, h.behind⟩

theorem schedule_eq_error (h : Ready c out limit w) (hlimit : limit.Early) {halt : Halt}
    (herror : World.schedule Peripherals.wake steps Machine.mainThread limit w = .error halt v) :
    halt = .starved :=
  (InOrder.progresses c out hlimit).schedule_eq_error h.owner h.idle hlimit.ne_asap
    ⟨h.entered, h.behind⟩ herror

theorem schedule (h : Ready c out limit w)
    (hv : World.schedule Peripherals.wake steps Machine.mainThread limit w = .ok () v) :
    Ready c out limit v := by
  have hv' := hv
  rw [← Peripherals.reaction_wake] at hv'
  have hbehind : v.scheduler.currentTime ≤ limit := by
    rw [currentTime_of_schedule Peripherals.reaction_leavesTime h.timed h.behind hv']
    exact Instant.le_refl _
  have hstep := h.toInStep.schedule hv
  obtain ⟨hl, ⟨-, rfl⟩ | ⟨u, hu, -, rfl⟩⟩ := schedule_eq_ok hv
  · exact ⟨⟨hstep, h.usable⟩, ⟨rfl, h.idle⟩, hbehind⟩
  · have husable := (dispatch_keeps (fun h hd hp => h.deliver hd hp) hu h.entered).usable
    rw [← Peripherals.reaction_wake] at hu
    have howner := congrArg (Option.getD · Machine.mainThread) (owner_of_dispatch hu)
    exact ⟨⟨hstep, husable⟩, ⟨howner, rfl⟩, hbehind⟩

theorem inject {byte : UInt8} (h : Ready c out limit w)
    (hv : Peripherals.inject byte w = .ok () v) : Ready c out limit v := by
  obtain ⟨hs, hveq⟩ := Peripherals.inject_eq_ok hv
  obtain ⟨hstep, hnow, -⟩ := h.toInStep.inject hv
  have hsame := Scheduler.sameTime_register hs
  refine ⟨⟨hstep, ?_⟩, ⟨?_, ?_⟩, ?_⟩
  · rw [hveq]
    exact ⟨h.usable.frames, h.usable.uart, h.usable.audio⟩
  · rw [hsame.owner]
    exact h.owner
  · rw [hsame.dispatching]
    exact h.idle
  · rw [hnow]
    exact h.behind

end Ready
end World
end Timebase
