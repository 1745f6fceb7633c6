import Timebase.Bench.Perform
/-!
# Sessions

A session performs one action after the other on a test bench. Whatever becomes of an action, the
next one finds what it left behind.
-/

namespace Timebase.Bench

/-- What is to be seen after an action. -/
structure Reply where
  answer : Answer
  now : Instant
  next : Instant
  size : Nat
  log : List LogEntry
  ticks : List TickRecord
  skipped : List Skipped

namespace Session

/-- A bench with a new scheduler or with one that goes on from a saved time. -/
def start : Option Saved → Attempt BenchWorld
  | none => .ok (.ofScheduler .new .empty)
  | some saved => do return .ofScheduler (← Scheduler.restore saved) .empty

/-- Thread that a session runs on. -/
def mainThread : ThreadId := 0

/-- Takes the records of the last action off a bench. -/
def collect (answer : Answer) (w : BenchWorld) : Reply × BenchWorld :=
  let reply := {
    answer
    now := w.scheduler.currentTime
    next := w.scheduler.next
    size := w.scheduler.size
    log := w.devices.log
    ticks := w.devices.ticks
    skipped := w.skipped }
  (reply, { w with skipped := [], devices := w.devices.clear })

/-- Performs an action and tells what is to be seen then; nothing if its bounds were too narrow. -/
def take (steps : Nat) (action : Action) (w : BenchWorld) : Option (Reply × BenchWorld) :=
  match guarded (perform (execute steps) steps ⟨mainThread, none⟩ action) w with
  | .ok answer w => some (collect answer w)
  | .error _ _ => none

/-- Performs actions in turn. -/
def run (steps : Nat) : List Action → BenchWorld → Option (List Reply)
  | [], _ => some []
  | action :: rest, w =>
    match take steps action w with
    | some (reply, w) => (reply :: ·) <$> run steps rest w
    | none => none

end Session
end Timebase.Bench
