import Timebase.Bench.Devices
import Timebase.Time.Arithmetic
/-!
# Actions and wake-ups on a test bench

An action is performed on behalf of a thread, by a device at the instant of its wake-up or from
outside. A refusal is an answer like any other; a violation ends the wake-up unless the action was
guarded against it.
-/

namespace Timebase.Bench

/-- On whose behalf an action is performed. -/
structure Context where
  thread : ThreadId
  /-- The instant of the wake-up, from outside the current time. -/
  instant : Option Instant

def Context.now (c : Context) : Run BenchWorld Instant := do
  return c.instant.getD (← get).scheduler.currentTime

def Context.resolve (c : Context) (m : Moment) : Run BenchWorld Instant := do
  m.resolve (← c.now)

/-- Wakes devices on behalf of a thread. -/
abbrev WakeOn := ThreadId → Wake Devices

variable {σ : Type}

/-- A refusal becomes the answer. -/
def settled (act : Run σ Answer) : Run σ Answer := do
  match ← Run.attempt act with
  | .ok answer => return answer
  | .error (.refused cause) => return .fault (.refused cause)
  | .error (.violated cause) => Run.violate cause

/-- Any fault becomes the answer. -/
def guarded (act : Run σ Answer) : Run σ Answer := do
  match ← Run.attempt act with
  | .ok answer => return answer
  | .error cause => return .fault cause

/-- The answer about a device of the right kind. -/
def about {α : Type} (f : α → Answer) : Option α → Answer
  | some a => f a
  | none => .nothing

/-- A run of the emulator, if it is at hand. -/
def onRig (act : Run (Rig RecordedCpu Devices) Answer) : Run BenchWorld Answer :=
  settled do return (← Run.onCase Devices.rigCase act).getD .nothing

/-- What an emulator answers when it has run. -/
def driven (act : Run (Rig RecordedCpu Devices) Unit) : Run BenchWorld Answer :=
  onRig do
    act
    return .nothing

def driver (wake : WakeOn) (steps : Nat) (thread : ThreadId) : Rig.Driver RecordedCpu Devices :=
  ⟨RecordedCpu.tick, World.schedule (wake thread) steps thread⟩

/-- How an emulator stands. -/
def emulatorState (r : Rig RecordedCpu Devices) : Answer :=
  .emulator r.emulator.time (Property.flatten (r.emulator.properties r.world.scheduler))
    r.emulator.cpu.cpu.instructions?

/-- Makes a device as of the current time. -/
def make (spec : DeviceSpec Action) : Run BenchWorld DeviceId := do
  let now := (← get).scheduler.currentTime
  match spec with
  | .scripted ownsSyncPoints rules => Devices.enroll (.scripted rules) ownsSyncPoints none
  | .frame num den =>
    let (timer, first) ← FrameTimer.new now num den
    Devices.enroll (.frame (.new timer)) true (some first)
  | .uart baud =>
    let uart ← Uart.new now baud
    Devices.enroll (.uart (.new uart)) true none
  | .audio rate batch =>
    let sampler ← AudioSampler.new now rate
    let format ← AudioFormat.new rate batch
    let first ← format.endOfBatch now
    Devices.enroll (.audio (.new sampler) format) true (some first)
  | .input => Devices.enroll (.input .new) true none

/-- Performs an action on behalf of a thread. -/
def perform (wake : WakeOn) (steps : Nat) (context : Context) : Action → Run BenchWorld Answer
  | .new spec => settled (.count <$> make spec)
  | .drop device => .flag <$> World.drop device
  | .set device time tag => do
    World.register (← context.resolve time) device tag
    return .nothing
  | .remove device tag => .flag <$> World.cancel device tag
  | .removeAll device => .count <$> World.cancelAll device
  | .isPending device tag => do return .flag ((← get).scheduler.isPending device tag)
  | .now => do return .time (← get).scheduler.currentTime
  | .next => do return .time (← get).scheduler.next
  | .size => do return .size (← get).scheduler.size
  | .debug => do return .text (← get).scheduler.debugText
  | .properties => do return .properties (Property.flatten (← get).scheduler.properties)
  | .save => do return .saved (← get).scheduler.save
  | .schedule limit => do
    World.schedule (wake context.thread) steps context.thread (← context.resolve limit)
    return .nothing
  | .advance time => do
    let time ← context.resolve time
    World.onScheduler (Scheduler.setCurrentTime context.thread time)
    return .nothing
  | .fail => Run.violate .deviceFailure
  | .name device => do
    if (← get).isAlive device then
      return about (fun d => .text d.label) ((← get).devices.all[device]?)
    else return .nothing
  | .wake device time tag => do
    let time ← context.resolve time
    if (← get).isAlive device then
      World.during device (wake context.thread device time tag)
    return .nothing
  | .attempt action => guarded (perform wake steps context action)
  | .onThread action => do
    let thread ← Devices.newThread
    guarded (perform wake steps { context with thread } action)
  | .send device bytes => do
    let idle ← Devices.held device (Devices.onUart device (modifyGet (Uart.send bytes)))
    if idle.getD false then World.register .asap device Uart.start
    return .nothing
  | .reset device => do
    if (← Devices.held device (Devices.onUart device (modify Uart.reset))).isSome then
      let _ ← World.cancel device Uart.start
      let _ ← World.cancel device Uart.bit
    return .nothing
  | .line device =>
    about (fun u => .line u.bitsSent u.busy) <$> Devices.held device (Devices.onUart device get)
  | .fetch device => do
    return about .bytes (← Devices.onReceiver device Receiver.fetch).join
  | .hangUp device => about .flag <$> Devices.onReceiver device Receiver.hangUp
  | .frames device =>
    about (fun f => .count f.frames) <$> Devices.held device (Devices.onFrame device get)
  | .update device time => do
    let time ← context.resolve time
    let _ ← Devices.held device (Devices.onSampler device (AudioSampler.update time))
    return .nothing
  | .samples device => do
    let sampler ← Devices.held device (Devices.onSampler device get)
    let format ← Devices.formatOf device
    return about id (do return .samples (← sampler).samples (← format).rate)
  | .inject device byte => do
    let port ← Devices.held device (Devices.onInput device (modify (InputPort.inject byte)))
    if port.isSome then World.register .asap device InputPort.arrival
    return .nothing
  | .latched device =>
    about (fun p => .latched p.latched) <$> Devices.held device (Devices.onInput device get)
  | .newCpu spec => settled do
    Devices.install (← BenchCpu.new (← get).scheduler.currentTime spec)
    return .nothing
  | .runUntil limit => do
    driven (Rig.runUntil (driver wake steps context.thread) steps (← context.resolve limit))
  | .runFor span => driven (Rig.runFor (driver wake steps context.thread) steps span)
  | .stepCpu => driven (Rig.step (driver wake steps context.thread))
  | .tick budget =>
    onRig (Rig.onEmulator (Run.on Emulator.cpuPart (.count <$> RecordedCpu.tick budget)))
  | .emulator => onRig (emulatorState <$> get)

/-- Asks for the next wake-up of a device, if it wants one. -/
def request (device : DeviceId) (r : Option Request) : Run BenchWorld Unit :=
  match r with
  | some r => World.register r.time device r.tag
  | none => return ()

/-- Performs actions one by one and notes their answers. -/
def performAll (wake : WakeOn) (steps : Nat) (context : Context) (entry : Nat) :
    List Action → Run BenchWorld Unit
  | [] => return ()
  | action :: rest => do
    Devices.note entry (← perform wake steps context action)
    performAll wake steps context entry rest

/-- Wakes a device. A device may wake others in turn, and the steps bound how deep that goes. -/
def execute : Nat → WakeOn
  | 0, _, _, _, _ => Run.starve
  | steps + 1, thread, device, time, tag => do
    match (← get).devices.all[device]? with
    | none => return ()
    | some (.scripted _) =>
      let entry ← Devices.openEntry device time tag
      let actions ← Devices.on Devices.scripts device (modifyGet (Rule.choose tag))
      performAll (execute steps) steps ⟨thread, some time⟩ entry (actions.getD [])
    | some (.frame _) => request device (← Devices.onFrame device (FrameTimer.wake time))
    | some (.uart _) => request device (← Devices.onUart device (Uart.wake time tag)).join
    | some (.audio _ format) =>
      let _ ← Devices.onSampler device (AudioSampler.update time)
      request device (some (← format.endOfBatch time))
    | some (.input _) =>
      let _ ← Devices.onInput device (modify (InputPort.wake time))

end Timebase.Bench
