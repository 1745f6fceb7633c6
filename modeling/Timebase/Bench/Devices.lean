import Timebase.Bench.Cpu
import Timebase.Device.FrameTimer
import Timebase.Device.Uart
import Timebase.Device.AudioSampler
import Timebase.Device.InputPort
import Timebase.Dispatch.Schedule
/-!
# Devices of a test bench

Devices of all kinds by number, the log of what scripted ones did, and a CPU.
-/

namespace Timebase.Bench

inductive Device where
  | scripted (rules : List (Rule Action))
  | frame (timer : Guarded FrameTimer)
  | uart (uart : Guarded Uart)
  | audio (sampler : Guarded AudioSampler) (format : AudioFormat)
  | input (port : InputPort)

def Device.label : Device → String
  | .scripted _ => "device"
  | .frame _ => FrameTimer.label
  | .uart _ => Uart.label
  | .audio _ _ => AudioSampler.label
  | .input _ => InputPort.label

/-- One wake-up of a scripted device and the answers to its actions so far. -/
structure LogEntry where
  device : DeviceId
  time : Instant
  tag : Tag
  answers : List Answer

structure Devices where
  all : List Device
  log : List LogEntry
  /-- Number of the thread that is made next. -/
  nextThread : ThreadId
  /-- The emulator, unless there is none or it is running. -/
  emulator : Option (Emulator RecordedCpu)

abbrev BenchWorld := World Devices

namespace Devices

variable {α β : Type}

def empty : Devices := ⟨[], [], 1, none⟩

def allPart : Part Devices (List Device) := ⟨Devices.all, fun all d => { d with all }⟩

/-- A run on a device of one kind. -/
def on (kind : Case Device β) (device : DeviceId) (act : Run β α) :
    Run BenchWorld (Option α) :=
  World.onDevices (Run.on allPart (Run.onItem device (Run.onCase kind act)))

/-- A run that needs the owner's hold on the device. -/
def held (device : DeviceId) (act : Run BenchWorld (Option α)) : Run BenchWorld (Option α) := do
  if (← get).isOwned device then act else return none

def scripts : Case Device (List (Rule Action)) where
  get?
    | .scripted rules => some rules
    | _ => none
  put := .scripted

def frames : Case Device (Guarded FrameTimer) where
  get?
    | .frame timer => some timer
    | _ => none
  put := .frame

def uarts : Case Device (Guarded Uart) where
  get?
    | .uart uart => some uart
    | _ => none
  put := .uart

def inputs : Case Device InputPort where
  get?
    | .input port => some port
    | _ => none
  put := .input

/-- A sampler together with its format. -/
def samplers : Case Device (Guarded AudioSampler × AudioFormat) where
  get?
    | .audio sampler format => some (sampler, format)
    | _ => none
  put p := .audio p.1 p.2

def samplerPart : Part (Guarded AudioSampler × AudioFormat) (Guarded AudioSampler) :=
  ⟨Prod.fst, fun sampler p => (sampler, p.2)⟩

def onFrame (device : DeviceId) (act : Run FrameTimer α) : Run BenchWorld (Option α) :=
  on frames device (Guarded.access act)

def onUart (device : DeviceId) (act : Run Uart α) : Run BenchWorld (Option α) :=
  on uarts device (Guarded.access act)

/-- A run on the far end of a line, which needs no guard. -/
def onReceiver (device : DeviceId) (f : Receiver → α × Receiver) : Run BenchWorld (Option α) :=
  on uarts device (modifyGet fun g =>
    let (a, receiver) := f g.value.receiver
    (a, { g with value := { g.value with receiver } }))

def onSampler (device : DeviceId) (act : Run AudioSampler α) : Run BenchWorld (Option α) :=
  on samplers device (Run.on samplerPart (Guarded.access act))

def formatOf (device : DeviceId) : Run BenchWorld (Option AudioFormat) :=
  on samplers device (Prod.snd <$> get)

def onInput (device : DeviceId) (act : Run InputPort α) : Run BenchWorld (Option α) :=
  on inputs device act

/-- Adds a device that asks for a first wake-up; it does not come to be if that is too early. -/
def enroll (device : Device) (ownsSyncPoints : Bool) (first : Option Request) :
    Run BenchWorld DeviceId := do
  if let some r := first then World.register r.time (← get).lifetimes.length r.tag
  let id ← World.enroll ownsSyncPoints
  World.onDevices (modify fun d => { d with all := d.all ++ [device] })
  return id

/-- Begins a log entry and answers its number. -/
def openEntry (device : DeviceId) (time : Instant) (tag : Tag) : Run BenchWorld Nat :=
  World.onDevices (modifyGet fun d =>
    (d.log.length, { d with log := d.log ++ [⟨device, time, tag, []⟩] }))

/-- Adds an answer to a log entry. -/
def note (entry : Nat) (answer : Answer) : Run BenchWorld Unit :=
  World.onDevices (modify fun d =>
    { d with log := d.log.modify entry fun e => { e with answers := e.answers ++ [answer] } })

def newThread : Run BenchWorld ThreadId :=
  World.onDevices (modifyGet fun d => (d.nextThread, { d with nextThread := d.nextThread + 1 }))

/-- The record of the CPU so far. -/
def ticks (d : Devices) : List TickRecord := (d.emulator.map fun e => e.cpu.record).getD []

/-- Replaces the emulator by one that begins at the current time; the record goes on. -/
def install (cpu : BenchCpu) : Run BenchWorld Unit := do
  let scheduler := (← get).scheduler
  World.onDevices (modify fun d => { d with emulator := some (.new ⟨cpu, d.ticks⟩ scheduler) })

/-- Begins a new log and a new record. -/
def clear (d : Devices) : Devices :=
  { d with
    log := []
    emulator := d.emulator.map fun e => { e with cpu := { e.cpu with record := [] } } }

/-- The emulator, taken while it runs, with what it drives. -/
def rigCase : Case BenchWorld (Rig RecordedCpu Devices) where
  get? w := w.devices.emulator.map fun emulator =>
    ⟨emulator, { w with devices := { w.devices with emulator := none } }⟩
  put r := { r.world with devices := { r.world.devices with emulator := some r.emulator } }

end Devices
end Timebase.Bench
