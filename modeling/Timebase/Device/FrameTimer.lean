import Timebase.Device.Guarded
import Timebase.Clock.Basic
/-!
# Frame timer

The end-of-frame interrupt of a video chip: one wake-up per frame, on the ticks of its clock.
-/

namespace Timebase

structure FrameTimer where
  clock : Clock
  frames : Nat

namespace FrameTimer

def label : String := "frame timer"

def frameEnd : Nat := 0

/-- A timer of `num / den` frames a second, and the end of its first frame. -/
def new (now : Instant) (num den : Nat) : Attempt (FrameTimer × Request) := do
  let clock ← Clock.new now 1
  let clock ← clock.setRatio num den
  return (⟨clock, 0⟩, ⟨← clock.timeAfter 1, frameEnd⟩)

/-- Counts a frame, whose end has to be now, and asks for the end of the next. -/
def wake (time : Instant) : Run FrameTimer Request := do
  Run.update fun f => return { f with clock := (← f.clock.forward 1) }
  let now ← Run.read fun f => f.clock.time
  Run.demand (now == time) .frameMismatch
  Run.update fun f => return { f with frames := (← Word.add f.frames 1) }
  return ⟨← Run.read fun f => f.clock.timeAfter 1, frameEnd⟩

end FrameTimer
end Timebase
