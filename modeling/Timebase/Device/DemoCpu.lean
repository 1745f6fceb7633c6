import Timebase.Clock.Basic
import Timebase.Time.Arithmetic
/-!
# Demo CPU

A CPU whose instructions all take the same number of cycles of its own clock.
-/

namespace Timebase

structure DemoCpu where
  clock : Clock
  cyclesPerInstr : Nat
  instructions : Nat

namespace DemoCpu

/-- An instruction takes at least one cycle. -/
def new (t : Instant) (freq cyclesPerInstr : Nat) : Attempt DemoCpu := do
  return ⟨← Clock.new t freq, max cyclesPerInstr 1, 0⟩

/-- Executes the whole instructions that fit into a budget of master ticks, at least one. -/
def tick (budget : Nat) : Run DemoCpu Nat := do
  let start ← Run.read fun c => c.clock.time
  let target ← start.addChecked (Span.wrap budget)
  let cycles ← Run.read fun c => c.clock.ticksTill target
  let perInstr := (← get).cyclesPerInstr
  let instrs := max (cycles / perInstr) 1
  Run.update fun c => do
    return { c with clock := (← c.clock.forward (← Word.multiply instrs perInstr)) }
  Run.update fun c => return { c with instructions := (← Word.add c.instructions instrs) }
  let reached ← Run.read fun c => c.clock.time
  return Word.ofInt (← reached.since start).ticks

end DemoCpu
end Timebase
