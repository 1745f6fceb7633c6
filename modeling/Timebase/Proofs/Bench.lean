import Timebase.Bench.Perform
import Timebase.Proofs.Device.InputPort
import Timebase.Proofs.Device.Line

/-!
# Lines and ports on a test bench

What is done to a serial line or an input port on a bench, and what they do there when they are
woken, is what they serve and do among any other devices.
-/

namespace Timebase.Bench

variable {α β : Type} {device : DeviceId} {w : BenchWorld} {wake : WakeOn} {steps : Nat}
  {context : Context} {thread : ThreadId} {time : Instant} {tag : Tag}

/-- The place of a device of one kind. -/
def place (kind : Case Device β) (hkind : ∀ x, kind.get? (kind.put x) = some x)
    (device : DeviceId) : Place Devices β where
  get? d := d.all[device]?.bind kind.get?
  put x d := { d with all := d.all.set device (kind.put x) }
  get_put y h := by
    obtain ⟨other, hother, -⟩ := Option.bind_eq_some_iff.mp h
    obtain ⟨hlt, -⟩ := List.getElem?_eq_some_iff.mp hother
    simp [List.getElem?_set_self hlt, hkind]
  put_put y z _ := by simp [List.set_set]

def linePlace : DeviceId → Place Devices (Guarded Uart) := place Devices.uarts fun _ => rfl

def inputPlace : DeviceId → Place Devices InputPort := place Devices.inputs fun _ => rfl

theorem on_eq (kind : Case Device β) (hkind : ∀ x, kind.get? (kind.put x) = some x)
    (act : Run β α) :
    Devices.on kind device act = World.onDevices ((place kind hkind device).on act) := by
  refine congrArg World.onDevices (funext fun d => ?_)
  show Run.on Devices.allPart _ d = _
  cases hdevice : d.all[device]? with
  | none => simp [Run.on, Devices.allPart, Run.onItem, Place.on, place, hdevice]
  | some other =>
    cases hother : kind.get? other with
    | none =>
      have hsame : d.all.set device other = d.all := by
        obtain ⟨hlt, rfl⟩ := List.getElem?_eq_some_iff.mp hdevice
        exact List.set_getElem_self hlt
      simp [Run.on, Devices.allPart, Run.onItem, Run.onCase, Place.on, place, hdevice, hother, hsame]
    | some x =>
      cases hact : act x <;>
        simp [Run.on, Devices.allPart, Run.onItem, Run.onCase, Place.on, place, hdevice, hother, hact]

theorem onUart_eq (act : Run Uart α) : Devices.onUart device act =
    World.onDevices ((linePlace device).on (Guarded.access act)) :=
  on_eq Devices.uarts (fun _ => rfl) (Guarded.access act)

theorem onInput_eq (act : Run InputPort α) :
    Devices.onInput device act = World.onDevices ((inputPlace device).on act) :=
  on_eq Devices.inputs (fun _ => rfl) act

theorem held_bind (h : w.isOwned device = true) (act : Run BenchWorld (Option α))
    (next : Option α → Run BenchWorld β) :
    (Devices.held device act >>= next) w = (act >>= next) w := by
  have hheld : Devices.held device act w = act w := by
    show (if w.isOwned device then act else pure none) w = _
    rw [if_pos h]
  cases hact : act w with
  | ok a v => rw [Run.bind_of_ok hact, Run.bind_of_ok (hheld.trans hact)]
  | error halt v => rw [Run.bind_of_error hact, Run.bind_of_error (hheld.trans hact)]

section

variable (h : w.isOwned device = true)

include h

theorem perform_send (bytes : List UInt8) : perform wake steps context (.send device bytes) w =
    ((fun _ => .nothing) <$> (Uart.sending (linePlace device) device bytes).run) w := by
  rw [perform, held_bind h, onUart_eq, Uart.sending, Place.deed, Program.run, map_bind]
  refine congrFun (congrArg _ (funext fun idle => ?_)) w
  cases idle.getD false <;> rfl

theorem perform_line : perform wake steps context (.line device) w =
    (about (fun u => .line u.bitsSent u.busy) <$> (Uart.looking (linePlace device)).run) w := by
  rw [perform, map_eq_pure_bind, map_eq_pure_bind, held_bind h, onUart_eq]
  rfl

theorem perform_reset : perform wake steps context (.reset device) w =
    ((fun _ => .nothing) <$> (Uart.resetting (linePlace device) device).run) w := by
  rw [perform, held_bind h, onUart_eq, Uart.resetting, Place.deed, Program.run, map_bind]
  refine congrFun (congrArg _ (funext fun done => ?_)) w
  cases done <;> rfl

theorem perform_inject (byte : UInt8) : perform wake steps context (.inject device byte) w =
    ((fun _ => .nothing) <$> (InputPort.injecting (inputPlace device) device byte).run) w := by
  rw [perform, held_bind h, onInput_eq, InputPort.injecting, Place.deed, Program.run, map_bind]
  refine congrFun (congrArg _ (funext fun done => ?_)) w
  cases done <;> rfl

end

theorem onReceiver_eq (f : Receiver → α × Receiver) :
    Devices.onReceiver device f = (Uart.listening (linePlace device) f).run :=
  (on_eq Devices.uarts (fun _ => rfl) _).trans (bind_pure _).symm

theorem perform_fetch : perform wake steps context (.fetch device) =
    (fun bytes => about .bytes (Option.join bytes)) <$>
      (Uart.listening (linePlace device) Receiver.fetch).run := by
  rw [perform, onReceiver_eq]
  rfl

theorem perform_hangUp : perform wake steps context (.hangUp device) =
    about .flag <$> (Uart.listening (linePlace device) Receiver.hangUp).run := by
  rw [perform, onReceiver_eq]

theorem execute_line {uart : Guarded Uart} (h : w.devices.all[device]? = some (.uart uart)) :
    execute (steps + 1) thread device time tag w =
      (Uart.waking (linePlace device) device time tag).run w := by
  have hget (next : BenchWorld → Run BenchWorld Unit) : (get >>= next) w = next w w := rfl
  rw [execute, hget]
  simp only [h]
  rw [onUart_eq, Uart.waking, Place.deed, Program.run]
  refine congrFun (congrArg _ (funext fun asked => ?_)) w
  cases asked.join <;> rfl

theorem execute_input {port : InputPort} (h : w.devices.all[device]? = some (.input port)) :
    execute (steps + 1) thread device time tag w =
      (InputPort.waking (inputPlace device) time).run w := by
  have hget (next : BenchWorld → Run BenchWorld Unit) : (get >>= next) w = next w w := rfl
  rw [execute, hget]
  simp only [h]
  rw [onInput_eq]
  rfl

end Timebase.Bench
