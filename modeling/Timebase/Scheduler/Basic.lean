import Timebase.Scheduler.Pending
import Timebase.Property
import Timebase.Run
/-!
# The scheduler

Devices register sync points, and time moves on from one to the next. The key of the first pending
instant is kept beside the heap, so that the common case, nothing to do, is decided by one
comparison. The first thread to move time owns it from then on.
-/

namespace Timebase

structure Scheduler where
  pending : Pending
  currentTime : Instant
  /-- Key of the first pending instant, or `idleKey`. -/
  nextKey : Nat
  owner : Option ThreadId
  /-- Whether wake-ups are being delivered. -/
  dispatching : Bool
  deriving DecidableEq, Repr

namespace Scheduler

/-- The key kept when nothing is pending; it is also that of an instant never reached. -/
def idleKey : Nat := UInt64.size - 1

/-- A scheduler at an instant with nothing pending. -/
def start (t : Instant) : Scheduler := ⟨.empty, t, idleKey, none, false⟩

def new : Scheduler := start .zero

/-- Brings the kept key up to date. -/
def refresh (s : Scheduler) : Scheduler :=
  { s with nextKey := match s.pending.first? with
      | none => idleKey
      | some p => p.time.key }

/-- Asks for a wake-up of a device, not before the current time. -/
def register (s : Scheduler) (time : Instant) (device : DeviceId) (tag : Tag) :
    Attempt Scheduler := do
  Attempt.demand (time.isAsap || decide (s.currentTime ≤ time)) (.pastSyncPoint time s.currentTime)
  return refresh { s with pending := s.pending.push time device tag }

/-- Takes back one wake-up of a device with a tag, if there is one. -/
def cancel (s : Scheduler) (device : DeviceId) (tag : Tag) : Bool × Scheduler :=
  if s.pending.has (SyncPoint.isFor device tag) then
    (true, refresh { s with pending := s.pending.removeOne (SyncPoint.isFor device tag) })
  else (false, s)

/-- Takes back all wake-ups of a device and counts them. -/
def cancelAll (s : Scheduler) (device : DeviceId) : Nat × Scheduler :=
  let pending := s.pending.removeAll fun p => p.device == device
  let removed := s.pending.size - pending.size
  (removed, if 0 < removed then refresh { s with pending } else s)

def isPending (s : Scheduler) (device : DeviceId) (tag : Tag) : Bool :=
  s.pending.has (SyncPoint.isFor device tag)

def size (s : Scheduler) : Nat := s.pending.size

/-- Instant of the first pending sync point: the current time if that is wanted at the earliest
opportunity, and never if nothing is pending. -/
def next (s : Scheduler) : Instant :=
  let t := Instant.ofKey s.nextKey
  if t.isAsap then s.currentTime else t

/-- Binds the owner of time if there is none, and turns away any other thread. -/
def checkOwner (thread : ThreadId) (operation : OwnerOperation) : Run Scheduler Unit := do
  let owner := (← get).owner.getD thread
  modify fun s => { s with owner := some owner }
  Run.demand (owner == thread) (.foreignThread operation)

/-- Moves the current time forward without any wake-up.

That `Instant.never` is not turned away, here and where time is moved to a limit, is a defect: it is
no time to stand at, and `restore` refuses to go on from it. A scheduler that has been brought there
still answers by the same rules as anywhere else. -/
def setCurrentTime (thread : ThreadId) (t : Instant) : Run Scheduler Unit := do
  checkOwner thread .setCurrentTime
  let current := (← get).currentTime
  Run.demand (!t.isAsap && decide (current ≤ t)) (.timeReversed current t)
  modify fun s => { s with currentTime := t }

/-- Moves the current time to a limit unless it is there already. -/
def reach (limit : Instant) (s : Scheduler) : Scheduler :=
  { s with currentTime := s.currentTime.later limit }

/-- Whether nothing is due up to a limit. -/
def isIdleUntil (s : Scheduler) (limit : Instant) : Bool :=
  !limit.isAsap && decide (limit.key < s.nextKey)

/-- Moves to a limit up to which nothing is due. -/
def idle (thread : ThreadId) (limit : Instant) : Run Scheduler Unit := do
  checkOwner thread .schedule
  Run.demand (!(← get).dispatching) .reentered
  modify (reach limit)

/-- Begins to deliver wake-ups. -/
def enter (thread : ThreadId) (limit : Instant) : Run Scheduler Unit := do
  checkOwner thread .schedule
  Run.demand (!limit.isAsap) .scheduleToAsap
  let reentered := (← get).dispatching
  modify fun s => { s with dispatching := true }
  Run.demand (!reentered) .reentered

/-- Ends the delivery of wake-ups. -/
def leave (s : Scheduler) : Scheduler := { s with dispatching := false }

/-- The instant at which a sync point is delivered: never back in time. -/
def deliveryTime (s : Scheduler) (p : SyncPoint) : Instant :=
  if p.time.isAsap then s.currentTime
  else if p.time < s.currentTime then s.currentTime else p.time

/-- Takes the first sync point if it is due, and moves to the instant of its delivery. -/
def takeDue (s : Scheduler) (limit : Instant) : Option (SyncPoint × Instant) × Scheduler :=
  match s.pending.first? with
  | none => (none, s)
  | some p =>
    if p.time ≤ limit then
      let t := s.deliveryTime p
      (some (p, t), { refresh { s with pending := s.pending.pop } with currentTime := t })
    else (none, s)

def debugText (s : Scheduler) : String :=
  "Scheduler \x7b current_time: " ++ s.currentTime.debugText ++ ", next: " ++ s.next.debugText ++
    ", pending: " ++ toString s.size ++ " \x7d"

def properties (s : Scheduler) : List Property :=
  [.time "Current time" s.currentTime,
   .time "Next sync point" s.next,
   .count "Pending sync points" s.size,
   .flag "Dispatching" s.dispatching]

end Scheduler
end Timebase
