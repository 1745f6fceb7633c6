import Timebase.Dispatch.World
/-!
# Delivery of wake-ups

Everything due up to a limit is delivered in order, also what is registered on the way, and then
time stands at the limit. What a wake-up does is a parameter. If one breaks off, delivery ends
there and can be taken up again.
-/

namespace Timebase

/-- What a device does when it is woken. -/
abbrev Wake (σ : Type) := DeviceId → Instant → Tag → Run (World σ) Unit

namespace World

variable {σ : Type}

/-- Wakes the device of a sync point, or notes that it is gone. -/
def deliver (wake : Wake σ) (p : SyncPoint) (time : Instant) : Run (World σ) Unit := do
  if (← get).isAlive p.device then during p.device (wake p.device time p.tag)
  else modify fun w => { w with skipped := w.skipped ++ [⟨p.tag, time⟩] }

/-- Delivers one sync point after the other until none is due. -/
def dispatch (wake : Wake σ) (limit : Instant) : Nat → Run (World σ) Unit
  | 0, w => Run.starve w
  | steps + 1, w =>
    match w.scheduler.takeDue limit with
    | (none, _) => .ok () w
    | (some (p, time), scheduler) =>
      match deliver wake p time { w with scheduler } with
      | .ok _ w => dispatch wake limit steps w
      | .error halt w => .error halt w

/-- Delivers all that is due and moves time to the limit. -/
def scheduleDue (wake : Wake σ) (steps : Nat) (thread : ThreadId) (limit : Instant) :
    Run (World σ) Unit := do
  onScheduler (Scheduler.enter thread limit)
  Run.ensuring
    (do
      dispatch wake limit steps
      onScheduler (modify (Scheduler.reach limit)))
    (fun w => { w with scheduler := w.scheduler.leave })

/-- Moves time to a limit. When nothing is due up to there, the queue need not be looked at. -/
def schedule (wake : Wake σ) (steps : Nat) (thread : ThreadId) (limit : Instant) :
    Run (World σ) Unit := do
  if (← get).scheduler.isIdleUntil limit then onScheduler (Scheduler.idle thread limit)
  else scheduleDue wake steps thread limit

end World
end Timebase
