import Timebase.Proofs.Machine.Report
import Timebase.Proofs.Machine.Residents
import Timebase.Proofs.Turns

/-!
# What machines make of their input

Between the calls of a machine bytes may be injected into it. Whatever comes of the calls, none is
lost, and once the machine has settled all of them are latched.
-/

namespace Timebase

open InputPort (Kept)

variable {bytes : List UInt8} {most steps : Nat} {w v : World Peripherals} {thread : ThreadId}
  {limit : Instant} {c : MachineConfig} {m m' : Machine} {name : String} {wallSecs : Float}
  {r : MachineReport}

namespace Peripherals

/-- The input port of a machine, which nobody but the machine's owner injects anything into. -/
def port : Resident Peripherals InputPort := InputPort.resident inputPlace inputId false

/-- The port of a machine has been handed some bytes, and no more than so many of them wait. -/
structure Tallied (bytes : List UInt8) (most : Nat) (w : World Peripherals) : Prop where
  lives : port.Lives w
  kept : ∃ cs ks s, port.Stands w s ∧ Kept inputId cs ks s ∧
    (cs.flatMap Change.inputs).map Prod.snd = bytes ∧ s.state.waiting.length ≤ most

namespace Tallied

theorem of_same (h : Tallied bytes most w) (hinput : v.devices.input = w.devices.input)
    (hscheduler : v.scheduler = w.scheduler) (hlifetimes : v.lifetimes = w.lifetimes) :
    Tallied bytes most v := by
  obtain ⟨cs, ks, s, hs, hkept, hbytes, hmost⟩ := h.kept
  refine ⟨⟨hscheduler ▸ h.lives.sound, hscheduler ▸ h.lives.timed, ?_⟩,
    cs, ks, s, ⟨?_, hscheduler ▸ hs.now, hscheduler ▸ hs.wanted⟩, hkept, hbytes, hmost⟩
  · rw [World.isOwned, hlifetimes]
    exact h.lives.owned
  · exact (congrArg some hinput).trans hs.state

/-- Deliveries only latch what waits. -/
theorem scheduled (h : Tallied bytes most w) :
    Tallied bytes most ((World.schedule wake steps thread limit).after w) := by
  let p : Program Peripherals Unit := .schedule reaction steps thread limit
  have hrun : p.run = World.schedule wake steps thread limit := by
    rw [← reaction_wake]
    rfl
  obtain ⟨cs, ks, s, hs, hkept, hbytes, hmost⟩ := h.kept
  obtain ⟨hlives, hleaves⟩ :=
    InputPort.leaves (input_beside false steps thread limit) (Or.inr rfl) h.lives hs
  obtain ⟨s', cs', hs', htrail, -⟩ := hleaves.trail
  have hend : w.upTo (p.history w) = (World.schedule wake steps thread limit).after w := by
    rw [(p.path w).upTo_eq, Program.after, hrun]
  obtain ⟨hnone, hle⟩ := InputPort.inputs_of_trail htrail
  rw [hend] at hlives hs'
  refine ⟨hlives, _, _, s', hs', InputPort.kept_of_trail htrail hkept, ?_, hle.trans hmost⟩
  rw [List.flatMap_append, hnone, List.append_nil, hbytes]

theorem of_schedule_ok (h : Tallied bytes most w)
    (hv : World.schedule wake steps thread limit w = .ok () v) : Tallied bytes 0 v := by
  have hafter : Tallied bytes most ((World.schedule wake steps thread limit).after w) := h.scheduled
  rw [Run.after_of_ok hv] at hafter
  obtain ⟨cs, ks, s, hs, hkept, hbytes, -⟩ := hafter.kept
  rw [← reaction_wake] at hv
  have hnone := InputPort.waiting_eq_nil h.lives.sound hv (hs.wanted.trans hkept.wanted)
  exact ⟨hafter.lives, cs, ks, s, hs, hkept, hbytes, Nat.le_of_eq (congrArg List.length hnone)⟩

theorem injected (h : Tallied bytes most w) (byte : UInt8) :
    Tallied (bytes ++ [byte]) (most + 1) ((inject byte).after w) := by
  obtain ⟨cs, ks, ⟨now, x, wanted⟩, hs, hkept, hbytes, hmost⟩ := h.kept
  obtain ⟨wanted', hwanted, hs'⟩ := InputPort.injecting_stands byte hs
  have hafter : (InputPort.injecting inputPlace inputId byte).after w = (inject byte).after w := by
    rw [Program.after, inject_eq]
  have howned : ((InputPort.injecting inputPlace inputId byte).after w).isOwned inputId = true :=
    Resident.isOwned_deed (r := port) _ (fun done => InputPort.injecting_books inputId done.isSome)
      h.lives.owned
  have hlives := h.lives.of_path ((InputPort.injecting inputPlace inputId byte).path w) howned
  rw [hafter] at hs' hlives
  refine ⟨hlives, _, _, _, hs', hkept.inject byte hwanted, ?_, ?_⟩
  · simp [hbytes, Change.inputs, Change.input, Demand.data]
  · simpa using hmost

theorem ledger (h : Tallied bytes most w) :
    w.devices.input.latched.map Prod.snd ++ w.devices.input.waiting = bytes ∧
      w.devices.input.waiting.length ≤ most := by
  obtain ⟨cs, ks, s, hs, hkept, hbytes, hmost⟩ := h.kept
  have hstate : w.devices.input = s.state := Option.some.inj hs.state
  rw [hstate, hkept.ledger.order]
  exact ⟨hbytes, hmost⟩

theorem latched_eq (h : Tallied bytes 0 w) : w.devices.input.latched.map Prod.snd = bytes := by
  obtain ⟨horder, hmost⟩ := h.ledger
  rw [List.length_eq_zero_iff.mp (Nat.le_zero.mp hmost), List.append_nil] at horder
  exact horder

end Tallied
end Peripherals

namespace Machine

open Peripherals (Tallied)

/-- What may be asked of a machine. -/
inductive Order where
  | runFor (steps : Nat) (span : Span)
  | settle (steps : Nat)
  | inject (byte : UInt8)
  | report (name : String) (wallSecs : Float)

namespace Order

def run : Order → Run Machine Unit
  | .runFor steps span => Machine.runFor steps span
  | .settle steps => Machine.settle steps
  | .inject byte => Machine.inject byte
  | .report name wallSecs => do let _ ← Machine.report name wallSecs

/-- What comes in with an order. -/
def input : Order → List UInt8
  | .inject byte => [byte]
  | _ => []

end Order

/-- The machine that is left when it was asked one thing after the other, whatever came of it. -/
def obey (m : Machine) (orders : List Order) : Machine := orders.foldl (fun m o => o.run.after m) m

theorem preserves_schedule (steps : Nat) (limit : Instant) :
    Run.Preserves (Tallied bytes most) ((driver steps).schedule limit) := fun _ h => h.scheduled

theorem tallied_drain (h : Tallied bytes most m.rig.world) : Tallied bytes most m.drain.rig.world :=
  h.of_same rfl rfl rfl

theorem preserves_follow (steps : Nat) (order : Rig.Drive) :
    Run.Preserves (fun m => Tallied bytes most m.rig.world) (do
      Run.on rigPart (Rig.follow (driver steps) steps order)
      modify drain) :=
  .bind (.on (Rig.preserves_follow (preserves_schedule steps) steps order) (fun _ h => h)
    fun _ _ h => h) fun _ _ h => tallied_drain h

theorem preserves_onWorld {α : Type} {act : Run (World Peripherals) α}
    (h : Run.Preserves (Tallied bytes most) act) :
    Run.Preserves (fun m => Tallied bytes most m.rig.world) (onWorld act) :=
  .on (.on h (fun _ h => h) fun _ _ h => h) (fun _ h => h) fun _ _ h => h

theorem preserves_onPart {α τ : Type} {part : Part Peripherals (Guarded τ)} (act : Run τ α)
    (hpart : ∀ x p, (part.set x p).input = p.input) :
    Run.Preserves (fun m => Tallied bytes most m.rig.world)
      (onWorld (World.onDevices (Run.on part (Guarded.access act)))) := by
  refine preserves_onWorld fun w h => ?_
  rw [World.after_onDevices, Run.after_on]
  exact h.of_same (hpart _ _) rfl rfl

theorem preserves_report (name : String) (wallSecs : Float) :
    Run.Preserves (fun m => Tallied bytes most m.rig.world) (report name wallSecs) := by
  have hget : Run.Preserves (fun m => Tallied bytes most m.rig.world) (get : Run Machine Machine) :=
    fun _ h => h
  refine .bind hget fun _ => .bind hget fun _ => ?_
  refine .bind (preserves_onPart _ fun _ _ => rfl) fun _ => ?_
  refine .bind (preserves_onPart _ fun _ _ => rfl) fun _ => ?_
  refine .bind (preserves_onPart _ fun _ _ => rfl) fun _ => ?_
  refine .bind (preserves_onPart _ fun _ _ => rfl) fun _ => ?_
  exact .bind hget fun _ _ h => h

/-- Each order hands a machine its input and loses nothing of what there was. -/
theorem tallied_order (h : Tallied bytes most m.rig.world) (order : Order) :
    Tallied (bytes ++ order.input) (most + order.input.length) (order.run.after m).rig.world := by
  have hsame (act : Run Machine Unit)
      (hact : Run.Preserves (fun m => Tallied bytes most m.rig.world) act) :
      Tallied (bytes ++ []) (most + 0) (act.after m).rig.world := by
    rw [List.append_nil]
    exact hact m h
  cases order with
  | inject byte =>
    rw [Order.run, inject, onWorld, Run.after_on, Rig.onWorld, Run.after_on]
    exact h.injected byte
  | runFor steps span => exact hsame _ (preserves_follow steps (.runFor span))
  | settle steps => exact hsame _ (preserves_follow steps .step)
  | report name wallSecs =>
    exact hsame _ (.bind (preserves_report name wallSecs) fun _ _ h => h)

theorem tallied_obey (h : Tallied bytes most m.rig.world) (orders : List Order) :
    Tallied (bytes ++ orders.flatMap Order.input) (most + (orders.flatMap Order.input).length)
      (m.obey orders).rig.world := by
  induction orders generalizing m bytes most with
  | nil =>
    rw [List.flatMap_nil, List.append_nil]
    exact h
  | cons order orders ih =>
    have hrest := ih (tallied_order h order)
    rw [List.flatMap_cons, ← List.append_assoc, List.length_append, ← Nat.add_assoc]
    exact hrest

theorem tallied_settled (h : Tallied bytes most m.rig.world) (hm : settle steps m = .ok () m') :
    Tallied bytes 0 m'.rig.world := by
  obtain ⟨rig, hstep, rfl⟩ := settle_eq_ok hm
  obtain ⟨_, rig₁, hcpu, hcatch⟩ := Run.bind_eq_ok.mp hstep
  have hworld : rig₁.world = m.rig.world := Rig.world_onEmulator hcpu
  obtain ⟨_, _, hget, hschedule⟩ := Run.bind_eq_ok.mp hcatch
  cases hget
  obtain ⟨v, hv, rfl⟩ := Run.on_eq_ok.mp hschedule
  exact tallied_drain ((hworld ▸ h).of_schedule_ok hv)

theorem tallied_new (h : new c = .ok m) : Tallied [] 0 m.rig.world := by
  obtain ⟨-, w, cpu, hw, -, rfl⟩ := new_eq_ok h
  have hsound := sound_powerOn hw
  have hnow := currentTime_powerOn hw
  obtain ⟨_, _, _, _, _, _, s₁, s₂, -, -, -, -, -, hs₁, hs₂, hs₃, hweq⟩ := powerOn_eq_ok hw
  have hwanted : w.scheduler.wanted Peripherals.inputId = [] := by
    rw [Scheduler.wanted_register_of_ne hs₃ (by decide),
      Scheduler.wanted_register_of_ne hs₂ (by decide),
      Scheduler.wanted_register_of_ne hs₁ (by decide)]
    exact Scheduler.wanted_start .zero _
  have hport : w.devices.input = .new := congrArg (fun w => w.devices.input) hweq
  refine ⟨⟨hsound, ?_, ?_⟩, [], [], ⟨w.scheduler.currentTime, .new, []⟩,
    ⟨congrArg some hport, rfl, hwanted⟩, InputPort.kept_new _ _, rfl, Nat.le_refl 0⟩
  · show w.scheduler.currentTime ≠ .asap
    rw [hnow]
    exact Instant.early_zero.ne_asap
  · exact isOwned_powerOn hw (Nat.le_refl _)

/-- What a machine has latched once it has settled, if nothing comes in any more. -/
theorem latched_of_settled (hnew : new c = .ok m) {orders later : List Order} {m₁ : Machine}
    (hsettle : settle steps (m.obey orders) = .ok () m₁)
    (hlater : later.flatMap Order.input = []) :
    (m₁.obey later).rig.world.devices.input.latched.map Prod.snd = orders.flatMap Order.input := by
  have hsettled := tallied_settled (tallied_obey (tallied_new hnew) orders) hsettle
  have hend := tallied_obey hsettled later
  rw [hlater, List.append_nil] at hend
  exact hend.latched_eq

theorem inputEvents_of_settled (hnew : new c = .ok m) {orders later : List Order} {m₁ m₂ : Machine}
    (hsettle : settle steps (m.obey orders) = .ok () m₁) (hlater : later.flatMap Order.input = [])
    (hr : report name wallSecs (m₁.obey later) = .ok r m₂) :
    r.inputEvents = (orders.flatMap Order.input).length := by
  obtain ⟨_, -, -, -, -, -, -, -, -, hevents, -⟩ := report_eq_ok hr
  rw [← latched_of_settled hnew hsettle hlater, List.length_map]
  exact hevents

end Machine
namespace InputPort

variable {σ α β : Type} {place : Place σ InputPort} {device : DeviceId}

/-- Every byte that comes in is latched once and in order, as soon as wake-ups are delivered. -/
theorem bytes_are_latched_once_in_order {t : Instant} (ht : t ≠ .asap) {w₀ w : World σ}
    (h₀ : w₀.scheduler = .start t) {q : Program σ β} (hw : w ∈ q.worlds w₀)
    (hfresh : Fresh place device w) {p : Program σ α} (hp : p.Beside (resident place device true))
    {past : List (Moment σ)} (hpast : p.Looks w past ∨ past = p.history w) :
    (∃ x, Settles place device w past x) ∧
    ∀ (c : MachineConfig) (m : Machine) (orders later : List Machine.Order) (steps : Nat)
      (m₁ : Machine) (name : String) (wallSecs : Float) (r : MachineReport) (m₂ : Machine),
      Machine.new c = .ok m → Machine.settle steps (m.obey orders) = .ok () m₁ →
      later.flatMap Machine.Order.input = [] →
      Machine.report name wallSecs (m₁.obey later) = .ok r m₂ →
        (m₁.obey later).rig.world.devices.input.latched.map Prod.snd =
            orders.flatMap Machine.Order.input ∧
          r.inputEvents = (orders.flatMap Machine.Order.input).length := by
  refine ⟨settles hp hpast (.of_worlds ht h₀ hw hfresh.owned) hfresh, ?_⟩
  intro c m orders later steps m₁ name wallSecs r m₂ hnew hsettle hlater hr
  exact ⟨Machine.latched_of_settled hnew hsettle hlater,
    Machine.inputEvents_of_settled hnew hsettle hlater hr⟩

/-- A place for nothing but a port. -/
def onlyPort : Place InputPort InputPort :=
  ⟨some, fun x _ => x, fun _ _ => rfl, fun _ _ _ => rfl⟩

/-- A port, and a device that hands it a byte when it is woken. -/
def portAndFeeder : Reaction InputPort := fun device time _ =>
  if device = 0 then waking onlyPort time
  else if device = 1 then injecting onlyPort 0 5
  else .done ()

/-- Bytes come in from outside before and between deliveries, and from the feeder during one. -/
def threeBytes : Program InputPort Unit :=
  .andThen (injecting onlyPort 0 7) fun _ =>
    .andThen (.register (.wrap 300) 1 0) fun _ =>
      .andThen (.schedule portAndFeeder 10 0 (.wrap 500)) fun _ =>
        .andThen (injecting onlyPort 0 8) fun _ =>
          .schedule portAndFeeder 10 0 (.wrap 600)

/-- What a machine of a configuration reports when bytes came in before and after it has run. -/
def settledReport (c : MachineConfig) : Option MachineReport :=
  match Machine.new c with
  | .error _ => none
  | .ok m =>
    match Machine.settle 20 (m.obey [.inject 65, .settle 20, .inject 66, .inject 67]) with
    | .error _ _ => none
    | .ok _ m =>
      match Machine.report "" 0 (m.obey []) with
      | .error _ _ => none
      | .ok r _ => some r

theorem bytes_are_latched_once_in_order_three :
    let w := (Program.andThen (.enroll true) fun _ => .enroll true).after (.ofScheduler .new .new)
    (∃ x, Settles onlyPort 0 w (threeBytes.history w) x ∧
      x = ⟨[], [(.zero, 7), (.wrap 300, 5), (.wrap 500, 8)]⟩) ∧
    inputs 0 (threeBytes.history w) = [(.zero, 7), (.wrap 300, 5), (.wrap 500, 8)] ∧
    ∃ r, settledReport Machine.slowCpu = some r ∧ r.inputEvents = 3 := by
  intro w
  have hfresh : Fresh onlyPort 0 w := ⟨rfl, rfl, by decide⟩
  have hw : w ∈ (Program.andThen (.enroll true) fun _ => .enroll true).worlds
      (.ofScheduler .new .new) := Program.after_mem_worlds _ _
  have hdeliver (limit : Instant) :
      (Program.schedule portAndFeeder 10 0 limit).Beside (resident onlyPort 0 true) := by
    refine ⟨fun _ _ => rfl, fun device time tag hd => ?_⟩
    have hne : device ≠ 0 := hd
    simp only [portAndFeeder, if_neg hne]
    split
    · exact Or.inl (.inject rfl 5)
    · trivial
  have hp : threeBytes.Beside (resident onlyPort 0 true) :=
    Or.inr ⟨Or.inl (.inject rfl 7), fun _ => Or.inr ⟨(by decide : 1 ≠ 0), fun _ =>
      Or.inr ⟨hdeliver _, fun _ => Or.inr ⟨Or.inl (.inject rfl 8), fun _ => hdeliver _⟩⟩⟩⟩
  obtain ⟨⟨x, hx⟩, hmachine⟩ := bytes_are_latched_once_in_order (by decide) rfl hw hfresh hp
    (Or.inr rfl)
  have hend : (w.upTo (threeBytes.history w)).devices.waiting = [] ∧
      (w.upTo (threeBytes.history w)).devices.latched =
        [(.zero, 7), (.wrap 300, 5), (.wrap 500, 8)] := by
    decide +kernel
  rw [Option.some.inj hx.now.state] at hend
  refine ⟨⟨x, hx, ?_⟩, by decide +kernel, ?_⟩
  · obtain ⟨waiting, latched⟩ := x
    rw [← hend.1, ← hend.2]
  · have hsome : (settledReport Machine.slowCpu).isSome = true := by decide +kernel
    obtain ⟨r, hr⟩ := Option.isSome_iff_exists.mp hsome
    refine ⟨r, hr, ?_⟩
    rw [settledReport] at hr
    split at hr
    · cases hr
    · rename_i m hnew
      split at hr
      · cases hr
      · rename_i m₁ hsettle
        split at hr
        · cases hr
        · rename_i r' m₂ hreport
          cases hr
          exact (hmachine _ m _ [] _ m₁ _ _ _ m₂ hnew hsettle rfl hreport).2

end InputPort
end Timebase
