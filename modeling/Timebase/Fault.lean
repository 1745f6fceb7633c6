import Timebase.Time.Instant
/-!
# Faults

An operation is refused when its caller is told about it and goes on. It is violated when it was
used against its contract: then everything up to the nearest guard is abandoned.
-/

namespace Timebase

/-- Tells the threads that use one scheduler apart. -/
abbrev ThreadId := Nat

/-- Why a quantity of time cannot be had. -/
inductive TimeError where
  | zeroFrequency
  | frequencyTooHigh (hz : Nat)
  | overflow
  | invalidTime (time : Instant)
  deriving DecidableEq, Repr

def TimeError.message : TimeError → String
  | .zeroFrequency => "Frequency of 0 Hz"
  | .frequencyTooHigh hz => "Frequency " ++ toString hz ++ " Hz exceeds the master clock"
  | .overflow => "Emulated time overflow"
  | .invalidTime t => t.text ++ " is not a valid current time"

/-- Why something was not done. -/
inductive Refusal where
  | time (error : TimeError)
  | noProgress (time : Instant)
  | cannotRunUntil (limit : Instant)
  | scriptEnded
  | unknownVideo
  | zeroRate
  | zeroAmount
  deriving DecidableEq, Repr

def Refusal.message : Refusal → String
  | .time error => error.message
  | .noProgress t => "CPU made no progress at " ++ t.text
  | .cannotRunUntil limit => "Cannot run until " ++ limit.text
  | .scriptEnded => "CPU script ended"
  | .unknownVideo => "Matching variant not found"
  | .zeroRate => "Clock frequencies must be non-zero"
  | .zeroAmount => "cycles_per_instr and audio_batch must be non-zero"

/-- Operations on fixed-width numbers whose result may not fit. -/
inductive Operation where
  | add | subtract | multiply | divide | negate
  deriving DecidableEq, Repr

def Operation.verb : Operation → String
  | .add => "add"
  | .subtract => "subtract"
  | .multiply => "multiply"
  | .divide => "divide"
  | .negate => "negate"

/-- Scheduler operations that belong to the thread that owns time. -/
inductive OwnerOperation where
  | schedule | setCurrentTime
  deriving DecidableEq, Repr

def OwnerOperation.label : OwnerOperation → String
  | .schedule => "schedule"
  | .setCurrentTime => "set_current_time"

/-- Which contract was broken. -/
inductive Violation where
  | overflow (operation : Operation)
  | divideByZero
  | asapInstant
  | asapOperand
  | asapStart
  | instantOutOfRange
  | beforeAnchor
  | beforeTick
  | negativeSpan
  | pastSyncPoint (time current : Instant)
  | timeReversed (current time : Instant)
  | scheduleToAsap
  | reentered
  | foreignThread (operation : OwnerOperation)
  | frameMismatch
  | unknownWake
  | poisoned
  | deviceFailure
  deriving DecidableEq, Repr

def Violation.message : Violation → String
  | .overflow operation => "attempt to " ++ operation.verb ++ " with overflow"
  | .divideByZero => "attempt to divide by zero"
  | .asapInstant => "assertion failed: !self.is_asap()"
  | .asapOperand => "assertion failed: !self.is_asap() && !rhs.is_asap()"
  | .asapStart => "assertion failed: !self.is_asap() && !earlier.is_asap()"
  | .instantOutOfRange => "emulated time out of range"
  | .beforeAnchor => "assertion failed: time >= self.base"
  | .beforeTick => "assertion failed: time >= self.get_time()"
  | .negativeSpan => "assertion failed: !d.is_negative()"
  | .pastSyncPoint time current =>
    "Sync point at " ++ time.text ++ " is before current time " ++ current.text
  | .timeReversed current time =>
    "Current time cannot go back from " ++ current.text ++ " to " ++ time.text
  | .scheduleToAsap => "Cannot schedule up to ASAP"
  | .reentered => "Scheduler::schedule called from a device callback"
  | .foreignThread operation =>
    "assertion `left == right` failed: Scheduler::" ++ operation.label ++
      " called from a thread other than the emulation thread"
  | .frameMismatch => "assertion `left == right` failed"
  | .unknownWake => "internal error: entered unreachable code"
  | .poisoned => "called `Result::unwrap()` on an `Err` value: PoisonError \x7b .. \x7d"
  | .deviceFailure => "device failure"

inductive Fault where
  | refused (cause : Refusal)
  | violated (cause : Violation)
  deriving DecidableEq, Repr

def Fault.message : Fault → String
  | .refused cause => cause.message
  | .violated cause => cause.message

def Fault.isViolation : Fault → Bool
  | .refused _ => false
  | .violated _ => true

/-- A computation that may fail without any state. -/
abbrev Attempt := Except Fault

namespace Attempt

def refuse {α : Type} (cause : Refusal) : Attempt α := .error (.refused cause)

def refuseTime {α : Type} (error : TimeError) : Attempt α := .error (.refused (.time error))

def violate {α : Type} (cause : Violation) : Attempt α := .error (.violated cause)

/-- A contract: nothing happens when it is kept. -/
def demand (kept : Bool) (cause : Violation) : Attempt Unit :=
  if kept then .ok () else violate cause

end Attempt
end Timebase
