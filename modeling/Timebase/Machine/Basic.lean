import Timebase.Machine.Config
import Timebase.Machine.Report
import Timebase.Device.FrameTimer
import Timebase.Device.Uart
import Timebase.Device.AudioSampler
import Timebase.Device.InputPort
import Timebase.Device.DemoCpu
import Timebase.Emulator
import Timebase.Text.Octets
/-!
# Machines

A demo CPU and four devices on one scheduler.
-/

namespace Timebase

structure Peripherals where
  frames : Guarded FrameTimer
  uart : Guarded Uart
  audio : Guarded AudioSampler
  audioFormat : AudioFormat
  input : InputPort

namespace Peripherals

def framesId : DeviceId := 0
def uartId : DeviceId := 1
def audioId : DeviceId := 2
def inputId : DeviceId := 3

def framesPart : Part Peripherals (Guarded FrameTimer) :=
  ⟨Peripherals.frames, fun frames p => { p with frames }⟩

def uartPart : Part Peripherals (Guarded Uart) := ⟨Peripherals.uart, fun uart p => { p with uart }⟩

def audioPart : Part Peripherals (Guarded AudioSampler) :=
  ⟨Peripherals.audio, fun audio p => { p with audio }⟩

variable {α : Type}

def onFrames (act : Run FrameTimer α) : Run (World Peripherals) α :=
  World.onDevices (Run.on framesPart (Guarded.access act))

def onUart (act : Run Uart α) : Run (World Peripherals) α :=
  World.onDevices (Run.on uartPart (Guarded.access act))

def onAudio (act : Run AudioSampler α) : Run (World Peripherals) α :=
  World.onDevices (Run.on audioPart (Guarded.access act))

def request (device : DeviceId) (r : Request) : Run (World Peripherals) Unit :=
  World.register r.time device r.tag

/-- What each device does when it is woken, and when it wants to be woken next. -/
def wake : Wake Peripherals := fun device time tag => do
  if device = framesId then
    request framesId (← onFrames (FrameTimer.wake time))
  else if device = uartId then
    match ← onUart (Uart.wake time tag) with
    | some r => request uartId r
    | none => return ()
  else if device = audioId then
    onAudio (AudioSampler.update time)
    request audioId (← (← get).devices.audioFormat.endOfBatch time)
  else if device = inputId then
    World.onDevices (modify fun p => { p with input := p.input.wake time })

/-- Queues data for the serial line. -/
def send (bytes : List UInt8) : Run (World Peripherals) Unit := do
  if ← onUart (modifyGet (Uart.send bytes)) then World.register .asap uartId Uart.start

/-- Hands a byte to the input port. -/
def inject (byte : UInt8) : Run (World Peripherals) Unit := do
  World.onDevices (modify fun p => { p with input := p.input.inject byte })
  World.register .asap inputId InputPort.arrival

end Peripherals

structure Machine where
  rig : Rig DemoCpu Peripherals
  /-- What the serial line has put out. -/
  serialOut : List UInt8

namespace Machine

def rigPart : Part Machine (Rig DemoCpu Peripherals) := ⟨Machine.rig, fun rig m => { m with rig }⟩

def onWorld {α : Type} (act : Run (World Peripherals) α) : Run Machine α :=
  Run.on rigPart (Rig.onWorld act)

/-- The thread that drives a machine. -/
def mainThread : ThreadId := 0

def driver (steps : Nat) : Rig.Driver DemoCpu Peripherals :=
  ⟨DemoCpu.tick, World.schedule Peripherals.wake steps mainThread⟩

/-- The devices of a configuration and what they ask for at power-on. -/
def powerOn (c : MachineConfig) (scheduler : Scheduler) : Attempt (World Peripherals) := do
  let now := scheduler.currentTime
  let (num, den) := c.video.frameRate
  let (frames, firstFrame) ← FrameTimer.new now num den
  let scheduler ← scheduler.register firstFrame.time Peripherals.framesId firstFrame.tag
  let uart ← Uart.new now c.baud
  let audio ← AudioSampler.new now c.sampleRate
  let audioFormat ← AudioFormat.new c.sampleRate c.audioBatch
  let firstBatch ← audioFormat.endOfBatch now
  let scheduler ← scheduler.register firstBatch.time Peripherals.audioId firstBatch.tag
  let (_, uart) := uart.send (Text.toOctets c.message)
  let scheduler ← scheduler.register .asap Peripherals.uartId Uart.start
  return {
    scheduler
    lifetimes := List.replicate 4 ⟨true, 0, true⟩
    skipped := []
    devices := ⟨.new frames, .new uart, .new audio, audioFormat, .new⟩ }

/-- Builds a machine, or says why it cannot be built. -/
def new (c : MachineConfig) : Attempt Machine := do
  c.validate
  let world ← powerOn c .new
  let cpu ← DemoCpu.new world.scheduler.currentTime c.cpuFreq c.cyclesPerInstr
  return ⟨⟨.new cpu world.scheduler, world⟩, []⟩

def time (m : Machine) : Instant := m.rig.emulator.time

def scheduler (m : Machine) : Scheduler := m.rig.world.scheduler

/-- Fetches what has arrived over the serial line. -/
def drain (m : Machine) : Machine :=
  let (arrived, receiver) := m.rig.world.devices.uart.value.receiver.fetch
  let devices := { m.rig.world.devices with
    uart := { m.rig.world.devices.uart with
      value := { m.rig.world.devices.uart.value with receiver } } }
  { m with
    rig := { m.rig with world := { m.rig.world with devices } }
    serialOut := m.serialOut ++ arrived.getD [] }

def runFor (steps : Nat) (span : Span) : Run Machine Unit := do
  Run.on rigPart (Rig.runFor (driver steps) steps span)
  modify drain

/-- One more step, so that events from outside get latched. -/
def settle (steps : Nat) : Run Machine Unit := do
  Run.on rigPart (Rig.step (driver steps))
  modify drain

def inject (byte : UInt8) : Run Machine Unit := onWorld (Peripherals.inject byte)

def latched (m : Machine) : List (Instant × UInt8) := m.rig.world.devices.input.latched

/-- Accounts for the sound up to now and tells how the machine stands. -/
def report (name : String) (wallSecs : Float) : Run Machine MachineReport := do
  let time := (← get).time
  let now := (← get).scheduler.currentTime
  onWorld (Peripherals.onAudio (AudioSampler.update now))
  let frames ← onWorld (Peripherals.onFrames (FrameTimer.frames <$> get))
  let serialBits ← onWorld (Peripherals.onUart (Uart.bitsSent <$> get))
  let audioSamples ← onWorld (Peripherals.onAudio (AudioSampler.samples <$> get))
  let m ← get
  return {
    name
    emulatedTicks := time.ticks
    emulatedSecs := time.seconds
    wallSecs
    cpuInstructions := m.rig.emulator.cpu.instructions
    frames
    serialBits
    serialOutput := Text.ofOctets m.serialOut
    audioSamples
    audioSamplesExpected := now.periods m.rig.world.devices.audioFormat.rate
    inputEvents := m.latched.length
    pendingSyncPoints := m.scheduler.size
    debug := Property.flatten (m.rig.emulator.properties m.scheduler) }

end Machine
end Timebase
