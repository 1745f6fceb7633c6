import Timebase.Dispatch.Schedule
import Timebase.Time.Arithmetic
/-!
# The emulator

The emulator alone decides how time passes: it lets the CPU run up to the next sync point and then
has everything delivered that came due. The CPU executes whole instructions, so it may run past
what it was asked for.
-/

namespace Timebase

/-- Executes for about a number of master ticks, answers how many it took. -/
abbrev Tick (κ : Type) := Nat → Run κ Nat

structure Emulator (κ : Type) where
  cpu : κ
  /-- Time of the CPU. -/
  time : Instant
  /-- Steps of the CPU so far, each of a tick or more. No run comes near the end of 64 bits: at a step
  each nanosecond that takes more than five hundred years. -/
  steps : Nat

/-- An emulator together with what it drives. -/
structure Rig (κ σ : Type) where
  emulator : Emulator κ
  world : World σ

namespace Emulator

variable {κ : Type}

/-- An emulator that starts at the current time of a scheduler. -/
def new (cpu : κ) (scheduler : Scheduler) : Emulator κ := ⟨cpu, scheduler.currentTime, 0⟩

def cpuPart : Part (Emulator κ) κ := ⟨Emulator.cpu, fun cpu e => { e with cpu }⟩

/-- One step of the CPU with a budget of at least one tick. -/
def runCpu (tick : Tick κ) (budget : Nat) : Run (Emulator κ) Unit := do
  let used ← Run.on cpuPart (tick (max budget 1))
  let time := (← get).time
  if used = 0 then Run.refuse (.noProgress time)
  let time ← time.addChecked (Span.wrap used)
  modify fun e => { e with time, steps := e.steps + 1 }

/-- What is shown of an emulator and its scheduler. -/
def properties (e : Emulator κ) (scheduler : Scheduler) : List Property :=
  [.time "CPU time" e.time, .count "CPU steps" e.steps, .group "Scheduler" scheduler.properties]

end Emulator

namespace Rig

variable {κ σ α : Type}

def emulatorPart : Part (Rig κ σ) (Emulator κ) :=
  ⟨Rig.emulator, fun emulator r => { r with emulator }⟩

def worldPart : Part (Rig κ σ) (World σ) := ⟨Rig.world, fun world r => { r with world }⟩

def onEmulator (act : Run (Emulator κ) α) : Run (Rig κ σ) α := Run.on emulatorPart act

def onWorld (act : Run (World σ) α) : Run (Rig κ σ) α := Run.on worldPart act

/-- What an emulator needs to know of its surroundings. -/
structure Driver (κ σ : Type) where
  tick : Tick κ
  /-- Has everything delivered up to a limit. -/
  schedule : Instant → Run (World σ) Unit

variable (d : Driver κ σ)

/-- Has everything delivered that is due at the time of the CPU. -/
def catchUp : Run (Rig κ σ) Unit := do
  onWorld (d.schedule (← get).emulator.time)

/-- The ticks to the next sync point or the limit, whichever comes first. -/
def budget (limit : Instant) (r : Rig κ σ) : Attempt Nat := do
  let target := r.world.scheduler.next.earlier limit
  let span ← target.since r.emulator.time
  return (max span.ticks 1).toNat

/-- Delivers and steps in turn until the time of the CPU is at the limit. -/
def runLoop (limit : Instant) : Nat → Run (Rig κ σ) Unit
  | 0, r => Run.starve r
  | steps + 1, r =>
    match catchUp d r with
    | .error halt r => .error halt r
    | .ok _ r =>
      if limit ≤ r.emulator.time then .ok () r
      else
        match (do
          let ticks ← Run.read (budget limit)
          onEmulator (Emulator.runCpu d.tick ticks) : Run (Rig κ σ) Unit) r with
        | .ok _ r => runLoop limit steps r
        | .error halt r => .error halt r

/-- Runs until emulated time reaches a finite limit. -/
def runUntil (steps : Nat) (limit : Instant) : Run (Rig κ σ) Unit := do
  unless limit.isFinite do Run.refuse (.cannotRunUntil limit)
  runLoop d limit steps

/-- Runs for a span of emulated time. -/
def runFor (steps : Nat) (span : Span) : Run (Rig κ σ) Unit := do
  let limit ← (← get).emulator.time.addChecked span
  runUntil d steps limit

/-- One step of the CPU, and whatever is due behind it. -/
def step : Run (Rig κ σ) Unit := do
  onEmulator (Emulator.runCpu d.tick 1)
  catchUp d

end Rig
end Timebase
