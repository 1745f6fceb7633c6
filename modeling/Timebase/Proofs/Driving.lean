import Timebase.Proofs.Emulator
import Timebase.Proofs.Moving

/-!
# Driving an emulator

An emulator may be told to run up to an instant, to run for a span or to take a single step.
However it is driven, once it has done what it was told the world is as if time had been moved to
the time of the CPU at once. So the wake-ups of two emulators that began alike are the same up to
where the first of them stopped, whatever their CPUs do.
-/

namespace Timebase

variable {σ α : Type} {w w₀ v : World σ} {react : Reaction σ} {steps : Nat} {thread : ThreadId}
  {a limit : Instant}

theorem Path.lt_call {m : Moment σ} {ms : List (Moment σ)} (path : Path w (m :: ms) v)
    (h : a < m.world.scheduler.currentTime) : ∀ c ∈ calls (m :: ms), a < c.time := by
  cases path with
  | cons step rest =>
    intro c hc
    rcases List.mem_append.mp hc with hc | hc
    · change c ∈ m.event.calls at hc
      cases he : m.event with
      | woken r time =>
        rw [he] at step hc
        rw [List.mem_singleton.mp hc, step.woken_time.1]
        exact h
      | _ =>
        rw [he] at hc
        cases hc
    · exact Instant.lt_of_lt_of_le h (rest.le_call c hc)

/-- Whether a run comes to a result. -/
def Run.ends (act : Run σ α) (s : σ) : Bool :=
  match act s with
  | .ok _ _ => true
  | .error _ _ => false

theorem Run.eq_ok_of_ends {act : Run σ Unit} {s : σ} (h : act.ends s = true) :
    act s = .ok () (act.after s) := by
  rcases Run.ok_or_error act s with ⟨_, hact⟩ | ⟨halt, hact⟩
  · exact hact
  · rw [ends, hact] at h
    cases h

namespace World

theorem deliverHistory_head (wake : Wake σ)
    (history : DeviceId → Instant → Tag → World σ → List (Moment σ)) (p : SyncPoint)
    (time : Instant) (w : World σ) :
    ∃ m ms, deliverHistory wake history p time w = m :: ms ∧ m.world.scheduler = w.scheduler := by
  rw [deliverHistory]
  cases w.isAlive p.device with
  | true => exact ⟨_, _, rfl, rfl⟩
  | false => exact ⟨_, _, rfl, rfl⟩

theorem dispatchHistory_head (wake : Wake σ)
    (history : DeviceId → Instant → Tag → World σ → List (Moment σ)) {p : SyncPoint}
    {time : Instant} {scheduler : Scheduler}
    (h : w.scheduler.takeDue limit = (some (p, time), scheduler)) :
    ∃ m ms, dispatchHistory wake history limit (steps + 1) w = m :: ms ∧
      m.world.scheduler = scheduler := by
  obtain ⟨m, ms, hhead, hm⟩ := deliverHistory_head wake history p time { w with scheduler }
  rw [dispatchHistory, h]
  simp only [hhead]
  exact ⟨m, _, rfl, hm⟩

theorem lt_call_of_dispatch (hq : ∀ p ∈ w.scheduler.queue, a < p.time) :
    ∀ c ∈ calls (dispatchHistory react.wake (fun device time tag => (react device time tag).history)
      limit steps w), a < c.time := by
  cases steps with
  | zero => exact List.forall_mem_nil _
  | succ steps =>
    have path : Path w (dispatchHistory react.wake
        (fun device time tag => (react device time tag).history) limit (steps + 1) w) _ :=
      dispatchHistory_path (fun device time tag => (react device time tag).path) w
    cases hd : w.scheduler.takeDue limit with
    | mk taken scheduler =>
      cases taken with
      | none =>
        rw [dispatchHistory_of_none (by rw [hd])]
        exact List.forall_mem_nil _
      | some due =>
        obtain ⟨p, time⟩ := due
        obtain ⟨m, ms, hhead, hm⟩ := dispatchHistory_head react.wake
          (fun device time tag => (react device time tag).history) hd
        rw [hhead] at path ⊢
        apply path.lt_call
        rw [hm]
        have hlt := hq p (Scheduler.mem_of_takeDue hd)
        obtain ⟨-, -, -, -, rfl⟩ := Scheduler.takeDue_eq_some.mp hd
        exact Instant.lt_of_lt_of_le hlt
          (Scheduler.deliveryTime_cases (Instant.ne_asap_of_lt hlt)).1

theorem lt_call_of_schedule (hq : ∀ p ∈ w.scheduler.queue, a < p.time) :
    ∀ c ∈ calls ((Program.schedule react steps thread limit).history w), a < c.time := by
  rw [Program.history, scheduleHistory]
  cases hi : w.scheduler.isIdleUntil limit with
  | true => exact List.forall_mem_nil _
  | false =>
    rw [if_neg Bool.false_ne_true]
    cases henter : onScheduler (Scheduler.enter thread limit) w with
    | error halt v =>
      rw [scheduleDueHistory, henter]
      exact List.forall_mem_nil _
    | ok _ v =>
      rw [calls_scheduleDueHistory henter]
      obtain ⟨s, hs, rfl⟩ := onScheduler_eq_ok.mp henter
      obtain ⟨-, -, -, rfl⟩ := Scheduler.enter_eq_ok.mp hs
      exact lt_call_of_dispatch hq

end World

/-- The same devices, noting each call they get before they react to it. -/
def Reaction.noted (react : Reaction σ) : Reaction (σ × List Call) := fun device time tag =>
  .andThen (.work (modify fun d => (d.1, d.2 ++ [⟨device, time, tag⟩])))
    fun _ => (react device time tag).recorded

theorem Reaction.LeavesTime.noted (h : react.LeavesTime) : react.noted.LeavesTime :=
  fun device time tag => ⟨trivial, fun _ => (h device time tag).recorded⟩

/-- What is noted while time moves on from a limit is later than the limit. -/
theorem World.MovesTo.noted {w v : World (σ × List Call)}
    (h : MovesTo react.noted thread limit w v) (hq : ∀ p ∈ w.scheduler.queue, a < p.time) :
    ∃ extra, v.devices.2 = w.devices.2 ++ extra ∧ ∀ c ∈ extra, a < c.time := by
  obtain ⟨n, h⟩ := h
  have hrun : (Program.schedule react n thread limit).recorded.run
      (w.unrecorded.record w.devices.2) = .ok () v := h
  rw [(Program.schedule react n thread limit).recorded_follows w.unrecorded w.devices.2] at hrun
  refine ⟨calls ((Program.schedule react n thread limit).history w.unrecorded), ?_,
    World.lt_call_of_schedule (w := w.unrecorded) hq⟩
  cases hplain : (Program.schedule react n thread limit).run w.unrecorded with
  | ok _ u =>
    rw [hplain] at hrun
    cases hrun
    rfl
  | error halt u =>
    rw [hplain] at hrun
    cases hrun

namespace Rig

variable {κ : Type} {tick : Tick κ} {r r' : Rig κ σ} {turns : Nat}

/-- What an emulator may be told to do. -/
inductive Drive where
  | runUntil (limit : Instant)
  | runFor (span : Span)
  | step

def follow (d : Driver κ σ) (turns : Nat) : Drive → Run (Rig κ σ) Unit
  | .runUntil limit => runUntil d turns limit
  | .runFor span => runFor d turns span
  | .step => step d

def drive (d : Driver κ σ) (turns : Nat) : List Drive → Run (Rig κ σ) Unit
  | [] => pure ()
  | order :: rest => do
    follow d turns order
    drive d turns rest

/-- A CPU whose steps all take some time. -/
def TakesTime (tick : Tick κ) : Prop :=
  ∀ budget cpu used cpu', tick budget cpu = .ok used cpu' →
    1 ≤ used ∧ used < 9223372036854775808

/-- A CPU and the devices that it runs beside. -/
def driver (tick : Tick κ) (react : Reaction σ) (steps : Nat) (thread : ThreadId) : Driver κ σ :=
  ⟨tick, World.schedule react.wake steps thread⟩

/-- The world is as if its time had been moved to that of the CPU. -/
structure UpToDate (react : Reaction σ) (thread : ThreadId) (w : World σ) (r : Rig κ σ) : Prop where
  timed : r.emulator.time ≠ .asap
  moved : World.MovesTo react thread r.emulator.time w r.world

/-- The world is as it was at first, or its time had been moved some of the way. -/
structure OnTheWay (react : Reaction σ) (thread : ThreadId) (w : World σ) (r : Rig κ σ) : Prop where
  timed : r.emulator.time ≠ .asap
  moved : r.world = w ∨ ∃ a, a ≤ r.emulator.time ∧ World.MovesTo react thread a w r.world

theorem UpToDate.onTheWay (h : UpToDate react thread w r) : OnTheWay react thread w r :=
  ⟨h.timed, Or.inr ⟨_, Instant.le_refl _, h.moved⟩⟩

theorem OnTheWay.runCpu {budget : Nat} (htick : TakesTime tick) (h : OnTheWay react thread w r)
    (hcpu : onEmulator (Emulator.runCpu tick budget) r = .ok () r') :
    OnTheWay react thread w r' := by
  obtain ⟨e, hstep, rfl⟩ := Run.on_eq_ok.mp hcpu
  obtain ⟨used, hused, -, htime⟩ := Emulator.runCpu_eq_ok hstep
  obtain ⟨hpos, hsmall⟩ := htick _ _ _ _ hused
  obtain ⟨hr, hfinite, hticks⟩ := Instant.addChecked_eq_ok htime
  have he := Instant.ne_asap_of_isFinite hfinite
  rw [Span.wrap_of_range (by omega) (by omega)] at hticks
  have hlater : r.emulator.time ≤ e.time := by
    have hticks : (e.time.ticks : Int) = r.emulator.time.ticks + used := hticks
    exact Instant.le_of_ticks_le he (by omega)
  refine ⟨he, ?_⟩
  rcases h.moved with hw | ⟨a, hle, hmoved⟩
  · exact Or.inl hw
  · exact Or.inr ⟨a, Instant.le_trans hle hlater, hmoved⟩

section

variable (hs : w.scheduler.Sound) (ht : w.scheduler.currentTime ≠ .asap)

include hs ht

theorem OnTheWay.catchUp (h : OnTheWay react thread w r)
    (hcatch : catchUp (driver tick react steps thread) r = .ok () r') :
    UpToDate react thread w r' := by
  obtain ⟨_, _, hget, hschedule⟩ := Run.bind_eq_ok.mp hcatch
  cases hget
  obtain ⟨v, hv, rfl⟩ := Run.on_eq_ok.mp hschedule
  have hv : World.MovesTo react thread r.emulator.time r.world v := ⟨steps, hv⟩
  refine ⟨h.timed, ?_⟩
  show World.MovesTo react thread r.emulator.time w v
  rcases h.moved with hw | ⟨a, hle, hmoved⟩
  · rw [← hw]
    exact hv
  · exact hmoved.joined hs ht hle hv

theorem OnTheWay.runLoop (htick : TakesTime tick) (h : OnTheWay react thread w r)
    (hloop : runLoop (driver tick react steps thread) limit turns r = .ok () r') :
    UpToDate react thread w r' := by
  induction turns generalizing r with
  | zero =>
    rw [runLoop_zero] at hloop
    cases hloop
  | succ turns ih =>
    obtain ⟨r₁, hcatch, ⟨-, rfl⟩ | ⟨ticks, r₂, hcpu, hrest⟩⟩ := runLoop_succ_eq_ok hloop
    · exact h.catchUp hs ht hcatch
    · exact ih ((h.catchUp hs ht hcatch).onTheWay.runCpu htick hcpu) hrest

theorem OnTheWay.runUntil (htick : TakesTime tick) (h : OnTheWay react thread w r)
    (hrun : runUntil (driver tick react steps thread) turns limit r = .ok () r') :
    UpToDate react thread w r' := by
  cases hf : limit.isFinite with
  | true =>
    rw [Rig.runUntil, hf] at hrun
    exact h.runLoop hs ht htick hrun
  | false =>
    rw [Rig.runUntil, hf] at hrun
    cases hrun

/-- Whatever an emulator has been told, the world is up to date when it has done so. -/
theorem OnTheWay.follow {order : Drive} (htick : TakesTime tick) (h : OnTheWay react thread w r)
    (hrun : follow (driver tick react steps thread) turns order r = .ok () r') :
    UpToDate react thread w r' := by
  cases order with
  | runUntil limit => exact h.runUntil hs ht htick hrun
  | runFor span =>
    obtain ⟨_, _, hget, hrest⟩ := Run.bind_eq_ok.mp hrun
    cases hget
    obtain ⟨limit, _, hlimit, huntil⟩ := Run.bind_eq_ok.mp hrest
    obtain ⟨-, rfl⟩ := Run.lift_eq_ok.mp hlimit
    exact h.runUntil hs ht htick huntil
  | step =>
    obtain ⟨_, r₁, hcpu, hcatch⟩ := Run.bind_eq_ok.mp hrun
    exact (h.runCpu htick hcpu).catchUp hs ht hcatch

theorem OnTheWay.drive {orders : List Drive} (htick : TakesTime tick) (hne : orders ≠ [])
    (h : OnTheWay react thread w r)
    (hrun : drive (driver tick react steps thread) turns orders r = .ok () r') :
    UpToDate react thread w r' := by
  induction orders generalizing r with
  | nil => exact absurd rfl hne
  | cons order rest ih =>
    obtain ⟨_, r₁, hfirst, hrest⟩ := Run.bind_eq_ok.mp hrun
    have hr₁ := h.follow hs ht htick hfirst
    cases rest with
    | nil =>
      cases hrest
      exact hr₁
    | cons order' rest => exact ih (List.cons_ne_nil order' rest) hr₁.onTheWay hrest

end

/-- An emulator made for a world whose devices note their calls. -/
def mount (cpu : κ) (w : World σ) : Rig κ (σ × List Call) := ⟨.new cpu w.scheduler, w.record []⟩

/-- An emulator that was made for a world and has been driven to some effect. -/
structure Journey (react : Reaction σ) (w : World σ) where
  κ : Type
  cpu : κ
  tick : Tick κ
  takesTime : TakesTime tick
  thread : ThreadId
  steps : Nat
  turns : Nat
  orders : List Drive
  orders_ne : orders ≠ []
  rig : Rig κ (σ × List Call)
  driven : drive (driver tick react.noted steps thread) turns orders (mount cpu w) = .ok () rig

namespace Journey

/-- The time of the CPU in the end. -/
def time (j : Journey react w) : Instant := j.rig.emulator.time

/-- The calls that the devices got, in order. -/
def calls (j : Journey react w) : List Call := j.rig.world.devices.2

theorem upToDate (j : Journey react w) (hs : w.scheduler.Sound)
    (ht : w.scheduler.currentTime ≠ .asap) :
    UpToDate react.noted j.thread (w.record []) j.rig :=
  OnTheWay.drive (w := w.record []) hs ht j.takesTime j.orders_ne ⟨ht, Or.inl rfl⟩ j.driven

end Journey

/-- When devices are woken does not depend on the CPU nor on how it is driven: of two journeys from
one world the longer one repeats the calls of the shorter one and goes on with later ones. -/
theorem wake_ups_do_not_depend_on_cpu {t : Instant} (h₀ : w₀.scheduler = Scheduler.start t)
    (ht : t ≠ .asap) (p : Program σ α) (hw : w ∈ p.worlds w₀) (hreact : react.LeavesTime)
    (first second : Journey react w) (h : first.time ≤ second.time) :
    ∃ extra, second.calls = first.calls ++ extra ∧ ∀ c ∈ extra, first.time < c.time := by
  have hs := Program.worlds_sound h₀ hw
  have htw := Program.worlds_timed h₀ ht hw
  obtain ⟨hfirst, hmoved⟩ := first.upToDate hs htw
  obtain ⟨-, hmoved'⟩ := second.upToDate hs htw
  -- the longer journey might have been made on the thread of the shorter one, with a stop
  have hbound := hmoved'.boundTo hreact.noted hmoved.owner
  obtain ⟨u, hu, hv⟩ := World.MovesTo.sliced (w := w.record []) hs htw hfirst h hbound
  obtain rfl := hmoved.unique hu
  have hq : ∀ p ∈ first.rig.world.scheduler.queue, first.time < p.time := by
    obtain ⟨n, hn⟩ := hmoved
    exact (World.lt_of_schedule_ok (w := w.record []) hs hn).2
  exact hv.noted hq

theorem askingAgain_leavesTime : askingAgain.LeavesTime := by
  intro device time tag
  rw [askingAgain]
  split
  · exact trivial
  · exact trivial

/-- Runs as far as it is told, but no further than a hundred ticks. -/
def cappedTick : Tick Unit := fun budget => pure (max 1 (min budget 100))

/-- Takes four ticks for everything and counts what it did. -/
def fixedTick : Tick Nat := fun _ => do
  modify fun count => count + 1
  return 4

/-- Up to an instant between the two wake-ups at once. -/
def straight : Journey askingAgain (twoPending.after (.ofScheduler .new ())) where
  κ := Unit
  cpu := ()
  tick := cappedTick
  takesTime := by
    rintro budget _ used _ h
    cases h
    omega
  thread := 0
  steps := 4
  turns := 4
  orders := [.runUntil (.wrap 6)]
  orders_ne := List.cons_ne_nil _ _
  rig := _
  driven := Run.eq_ok_of_ends (by decide +kernel)

/-- By small steps past both wake-ups, on another thread. -/
def plodding : Journey askingAgain (twoPending.after (.ofScheduler .new ())) where
  κ := Nat
  cpu := 0
  tick := fixedTick
  takesTime := by
    rintro _ _ used _ h
    cases h
    omega
  thread := 1
  steps := 5
  turns := 3
  orders := [.step, .runFor (.wrap 5)]
  orders_ne := List.cons_ne_nil _ _
  rig := _
  driven := Run.eq_ok_of_ends (by decide +kernel)

theorem wake_ups_do_not_depend_on_cpu_plodding :
    straight.calls = [⟨0, .wrap 5, 0⟩, ⟨0, .wrap 5, 2⟩] ∧
      ∃ extra, plodding.calls = straight.calls ++ extra ∧ ∀ c ∈ extra, straight.time < c.time :=
  ⟨by decide +kernel, wake_ups_do_not_depend_on_cpu rfl (by decide) twoPending
    (twoPending.after_mem_worlds _) askingAgain_leavesTime straight plodding
    (by decide +kernel)⟩

end Rig
end Timebase
