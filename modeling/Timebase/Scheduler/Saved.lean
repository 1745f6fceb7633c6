import Timebase.Scheduler.Basic
import Timebase.Time.Span
import Timebase.Json.Decoder
import Timebase.Json.Render
/-!
# Saved schedulers

Only the current time of a scheduler is saved: devices register their sync points again after a
restore.
-/

namespace Timebase

structure Saved where
  currentTime : Instant
  deriving DecidableEq, Repr

/-- An instant is written as its bare count of ticks. -/
def Instant.decoder : Json.Decoder Instant :=
  (Json.Decoder.natural UInt64.size "u64").map Instant.wrap

/-- A span is written as its bare count of ticks. -/
def Span.decoder : Json.Decoder Span :=
  (Json.Decoder.integer (-9223372036854775808) 9223372036854775807 "i64").map Span.wrap

namespace Saved

def decoder : Json.Decoder Saved :=
  .record
    { name := "SchedulerState"
      fields :=
        [Json.Decoder.field "current_time" Instant.decoder fun t s => { s with currentTime := t }]
      blank := ⟨.zero⟩
      lenient := false }

def toJson (s : Saved) : Json.Value :=
  .object [("current_time", .number (.natural s.currentTime.ticks))]

def text (s : Saved) : String := s.toJson.compact

end Saved

namespace Scheduler

def save (s : Scheduler) : Saved := ⟨s.currentTime⟩

/-- Goes on from a saved time, which must be finite. -/
def restore (saved : Saved) : Attempt Scheduler :=
  if saved.currentTime.isFinite then .ok (start saved.currentTime)
  else Attempt.refuseTime (.invalidTime saved.currentTime)

end Scheduler
end Timebase
