import Timebase.Machine.Basic
import Timebase.Proofs.Device.InputPort
import Timebase.Proofs.Device.Line

/-!
# The devices of a machine beside each other

In a machine no device touches another one. So what a serial line or an input port keeps to among
any others it keeps to in a machine.
-/

namespace Timebase.Peripherals

variable {device : DeviceId} {time : Instant} {tag : Tag} {bytes : List UInt8} {byte : UInt8}

def inputPart : Part Peripherals InputPort :=
  ⟨Peripherals.input, fun input p => { p with input }⟩

def linePlace : Place Peripherals (Guarded Uart) :=
  ⟨some ∘ uartPart.get, uartPart.set, fun _ _ => rfl, fun _ _ _ => rfl⟩

def inputPlace : Place Peripherals InputPort :=
  ⟨some ∘ inputPart.get, inputPart.set, fun _ _ => rfl, fun _ _ _ => rfl⟩

theorem deed_run_of_part {τ α β : Type} {place : Place Peripherals τ} (part : Part Peripherals τ)
    (hget : place.get? = some ∘ part.get) (hput : place.put = part.set) (act : Run τ α)
    (next : Option α → Program Peripherals β) (asked : Option (DeviceId × Demand)) :
    (place.deed act next asked).run =
      World.onDevices (Run.on part act) >>= fun a => (next (some a)).run := by
  rw [Place.deed, Program.run, Program.run_workFor]
  funext w
  have hthere : place.get? w.devices = some (part.get w.devices) := congrFun hget _
  cases hact : act (part.get w.devices) with
  | ok a y =>
    have hplace := World.onDevices_of_ok (w := w) (Place.on_of_ok hthere hact)
    rw [hput] at hplace
    have hpart := World.onDevices_of_ok (w := w) (Run.on_of_ok hact)
    rw [Run.bind_of_ok hpart]
    exact Run.bind_of_ok hplace
  | error halt y =>
    have hplace := World.onDevices_of_error (w := w) (Place.on_of_error hthere hact)
    rw [hput] at hplace
    have hpart := World.onDevices_of_error (w := w) (Run.on_of_error hact)
    rw [Run.bind_of_error hpart]
    exact Run.bind_of_error hplace

/-- What each device does when it is woken. -/
def reaction : Reaction Peripherals := fun device time tag =>
  if device = framesId then
    .andThen (.work (Run.on framesPart (Guarded.access (FrameTimer.wake time)))) fun r =>
      .register r.time framesId r.tag
  else if device = uartId then Uart.waking linePlace uartId time tag
  else if device = audioId then
    .andThen (.work (Run.on audioPart (Guarded.access (AudioSampler.update time)))) fun _ =>
      .andThen (.look fun w => w.devices.audioFormat.endOfBatch time) fun
        | .ok r => .register r.time audioId r.tag
        | .error cause => .halt (.fault cause)
  else if device = inputId then InputPort.waking inputPlace time
  else .done ()

theorem inject_eq (byte : UInt8) :
    inject byte = (InputPort.injecting inputPlace inputId byte).run := by
  rw [InputPort.injecting, deed_run_of_part inputPart rfl rfl]
  rfl

theorem wake_uart (time : Instant) (tag : Tag) :
    (Uart.waking linePlace uartId time tag).run = wake uartId time tag := by
  rw [Uart.waking, deed_run_of_part uartPart rfl rfl]
  refine congrArg _ (funext fun asked => ?_)
  cases asked <;> rfl

theorem wake_input (time : Instant) (tag : Tag) :
    (InputPort.waking inputPlace time).run = wake inputId time tag := by
  rw [InputPort.waking, deed_run_of_part inputPart rfl rfl]
  rfl

theorem wake_audio (time : Instant) (tag : Tag) :
    (reaction audioId time tag).run = wake audioId time tag := by
  refine congrArg _ (funext fun _ => funext fun w => ?_)
  let asked := w.devices.audioFormat.endOfBatch time
  let look : Run (World Peripherals) (Attempt Request) :=
    (Program.look fun w => w.devices.audioFormat.endOfBatch time).run
  have hlook : look w = .ok asked w := rfl
  show (look >>= _) w = (Run.lift asked >>= fun r => request audioId r) w
  rw [Run.bind_of_ok hlook]
  cases asked <;> rfl

theorem reaction_wake : reaction.wake = wake := by
  funext device time tag
  rw [Reaction.wake]
  rcases device with _ | _ | _ | _ | n
  · rfl
  · exact wake_uart time tag
  · exact wake_audio time tag
  · exact wake_input time tag
  · rfl

variable {τ : Type} {r : Resident Peripherals τ}

theorem frames_beside (hr : framesId ≠ r.device)
    (hplace : ∀ x p, r.place.get? (framesPart.set x p) = r.place.get? p) (time : Instant)
    (tag : Tag) : (reaction framesId time tag).Beside r := by
  refine Or.inr ⟨Or.inr fun s => ?_, fun _ => hr⟩
  rw [Run.after_on, hplace]

theorem audio_beside (hr : audioId ≠ r.device)
    (hplace : ∀ x p, r.place.get? (audioPart.set x p) = r.place.get? p) (time : Instant)
    (tag : Tag) : (reaction audioId time tag).Beside r := by
  refine Or.inr ⟨Or.inr fun s => ?_, fun _ => Or.inr ⟨trivial, fun asked => ?_⟩⟩
  · rw [Run.after_on, hplace]
  · cases asked with
    | ok asked => exact hr
    | error cause => trivial

/-- What a device does at its wake-up is beside another one whose place is elsewhere. -/
theorem deed_beside {τ' α β : Type} {place : Place Peripherals τ'} (part : Part Peripherals τ')
    (hget : place.get? = some ∘ part.get)
    (hplace : ∀ x p, r.place.get? (place.put x p) = r.place.get? p) {act : Run τ' α}
    {next : Option α → Program Peripherals β} (hnext : ∀ a, (next a).Beside r) :
    (place.deed act next).Beside r := by
  refine Or.inr ⟨Or.inr fun p => ?_, hnext⟩
  rw [Place.after_on (congrFun hget p)]
  exact hplace _ p

theorem asking_beside (hd : device ≠ r.device) (asked : Option Request) :
    (Uart.asking device asked).Beside r := by
  cases asked with
  | some asked => exact hd
  | none => trivial

theorem waking_line_beside (hr : uartId ≠ r.device)
    (hplace : ∀ x p, r.place.get? (linePlace.put x p) = r.place.get? p) (time : Instant)
    (tag : Tag) : (Uart.waking linePlace uartId time tag).Beside r :=
  deed_beside uartPart rfl hplace fun _ => asking_beside hr _

theorem waking_input_beside (hplace : ∀ x p, r.place.get? (inputPlace.put x p) = r.place.get? p)
    (time : Instant) : (InputPort.waking inputPlace time).Beside r :=
  deed_beside inputPart rfl hplace fun _ => trivial

theorem input_beside (injects : Bool) (steps : Nat) (thread : ThreadId) (limit : Instant) :
    (Program.schedule reaction steps thread limit).Beside
      (InputPort.resident inputPlace inputId injects) := by
  refine ⟨fun _ _ => rfl, fun device time tag hd => ?_⟩
  rcases device with _ | _ | _ | _ | n
  · exact frames_beside (by decide : framesId ≠ inputId) (fun _ _ => rfl) time tag
  · exact waking_line_beside (by decide : uartId ≠ inputId) (fun _ _ => rfl) time tag
  · exact audio_beside (by decide : audioId ≠ inputId) (fun _ _ => rfl) time tag
  · exact absurd rfl hd
  · trivial

end Timebase.Peripherals
