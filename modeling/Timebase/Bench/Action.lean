import Timebase.Time.Arithmetic
import Timebase.Scheduler.Saved
/-!
# Actions

What a test bench can do with a scheduler, its devices and a CPU. A scripted device does a list of
actions when it is woken, so actions and scripts contain each other.
-/

namespace Timebase.Bench

/-- An instant, or a span from the instant at hand. -/
inductive Moment where
  | at (time : Instant)
  | after (span : Span)
  deriving DecidableEq, Repr

def Moment.resolve (now : Instant) : Moment → Attempt Instant
  | .at time => .ok time
  | .after span => now.add span

/-- What a scripted device does at wake-ups with a tag, or with any, a number of times or always. -/
structure Rule (α : Type) where
  tag : Option Tag
  count : Option Nat
  actions : List α

namespace Rule

variable {α : Type}

def applies (tag : Tag) (r : Rule α) : Bool :=
  (r.tag == none || r.tag == some tag) && r.count != some 0

def used (r : Rule α) : Rule α := { r with count := r.count.map (· - 1) }

/-- The actions of the first rule that applies, and the rules once it is used. -/
def choose (tag : Tag) : List (Rule α) → List α × List (Rule α)
  | [] => ([], [])
  | r :: rest =>
    if r.applies tag then (r.actions, r.used :: rest)
    else
      let (actions, rest) := choose tag rest
      (actions, r :: rest)

end Rule

/-- A device to be made. -/
inductive DeviceSpec (α : Type) where
  | scripted (ownsSyncPoints : Bool) (rules : List (Rule α))
  | frame (num den : Nat)
  | uart (baud : Nat)
  | audio (rate batch : Nat)
  | input

/-- A CPU to be made. -/
inductive CpuSpec where
  | fixed (cycle : Nat)
  | list (ticks : List Nat)
  | demo (freq cycles : Nat)

inductive Action where
  | new (spec : DeviceSpec Action)
  | drop (device : DeviceId)
  | set (device : DeviceId) (time : Moment) (tag : Tag)
  | remove (device : DeviceId) (tag : Tag)
  | removeAll (device : DeviceId)
  | isPending (device : DeviceId) (tag : Tag)
  | now
  | next
  | size
  | debug
  | properties
  | save
  | schedule (limit : Moment)
  | advance (time : Moment)
  | fail
  | name (device : DeviceId)
  | wake (device : DeviceId) (time : Moment) (tag : Tag)
  | attempt (action : Action)
  | onThread (action : Action)
  | send (device : DeviceId) (bytes : List UInt8)
  | reset (device : DeviceId)
  | line (device : DeviceId)
  | fetch (device : DeviceId)
  | hangUp (device : DeviceId)
  | frames (device : DeviceId)
  | update (device : DeviceId) (time : Moment)
  | samples (device : DeviceId)
  | inject (device : DeviceId) (byte : UInt8)
  | latched (device : DeviceId)
  | newCpu (spec : CpuSpec)
  | runUntil (limit : Moment)
  | runFor (span : Span)
  | stepCpu
  | tick (budget : Nat)
  | emulator

/-- What an action answers. -/
inductive Answer where
  | nothing
  | flag (b : Bool)
  | count (n : Nat)
  | time (t : Instant)
  | text (s : String)
  | size (pending : Nat)
  | properties (entries : List (String × String))
  | saved (s : Saved)
  | bytes (bytes : List UInt8)
  | line (bits : Nat) (busy : Bool)
  | samples (count rate : Nat)
  | latched (bytes : List (Instant × UInt8))
  | emulator (time : Instant) (entries : List (String × String)) (instructions : Option Nat)
  | fault (cause : Fault)

end Timebase.Bench
