import Timebase.Bench.Action
import Timebase.Device.DemoCpu
import Timebase.Emulator
/-!
# CPUs of a test bench

Three kinds of CPU, each with a record of what it was asked for and what it took.
-/

namespace Timebase.Bench

inductive BenchCpu where
  /-- Executes whole cycles of a fixed length. -/
  | fixed (cycle : Nat)
  /-- Takes the ticks of a script in turn. -/
  | list (ticks : List Nat)
  | demo (cpu : DemoCpu)

namespace BenchCpu

def new (now : Instant) : CpuSpec → Attempt BenchCpu
  | .fixed cycle => .ok (.fixed cycle)
  | .list ticks => .ok (.list ticks)
  | .demo freq cycles => do return .demo (← DemoCpu.new now freq cycles)

def tick : Tick BenchCpu := fun budget c =>
  match c with
  | .fixed cycle =>
    if cycle = 0 then Run.violate .divideByZero c
    else Run.lift (Word.multiply (max (budget / cycle) 1) cycle) c
  | .list [] => Run.refuse .scriptEnded c
  | .list (ticks :: rest) => .ok ticks (.list rest)
  | .demo cpu =>
    match DemoCpu.tick budget cpu with
    | .ok used cpu => .ok used (.demo cpu)
    | .error halt cpu => .error halt (.demo cpu)

def instructions? : BenchCpu → Option Nat
  | .demo cpu => some cpu.instructions
  | _ => none

end BenchCpu

/-- A step of a CPU: what it was asked for and, unless it failed, what it took. -/
structure TickRecord where
  budget : Nat
  used : Option Nat
  deriving DecidableEq, Repr

/-- A CPU that keeps a record of its steps. -/
structure RecordedCpu where
  cpu : BenchCpu
  record : List TickRecord

namespace RecordedCpu

def tick : Tick RecordedCpu := fun budget c =>
  match c.cpu.tick budget with
  | .ok used cpu => .ok used ⟨cpu, c.record ++ [⟨budget, some used⟩]⟩
  | .error halt cpu => .error halt ⟨cpu, c.record ++ [⟨budget, none⟩]⟩

end RecordedCpu

end Timebase.Bench
