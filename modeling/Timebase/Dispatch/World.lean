import Timebase.Scheduler.Basic
/-!
# Devices and their lifetimes

A device lives as long as its owner keeps it or one of its wake-ups is under way. Some devices own
their sync points: when such a device ends, what it still has pending is taken back.
-/

namespace Timebase

structure Lifetime where
  owned : Bool
  /-- Wake-ups under way. -/
  running : Nat
  /-- Whether the device takes its sync points with it when it ends. -/
  ownsSyncPoints : Bool
  deriving DecidableEq, Repr

def Lifetime.isAlive (l : Lifetime) : Bool := l.owned || decide (0 < l.running)

/-- A sync point that came due when its device was gone. -/
structure Skipped where
  tag : Tag
  time : Instant
  deriving DecidableEq, Repr

def Skipped.text (s : Skipped) : String :=
  "Skipping sync point (tag " ++ toString s.tag ++ ") at " ++ s.time.text ++
    " of a destroyed device"

/-- A scheduler with the lifetimes of its devices and their states. -/
structure World (σ : Type) where
  scheduler : Scheduler
  /-- By device, in the order in which they were made. -/
  lifetimes : List Lifetime
  skipped : List Skipped
  devices : σ

namespace World

variable {σ α : Type}

def ofScheduler (scheduler : Scheduler) (devices : σ) : World σ := ⟨scheduler, [], [], devices⟩

def schedulerPart : Part (World σ) Scheduler :=
  ⟨World.scheduler, fun scheduler w => { w with scheduler }⟩

def devicesPart : Part (World σ) σ := ⟨World.devices, fun devices w => { w with devices }⟩

/-- A run on the scheduler alone. -/
def onScheduler (act : Run Scheduler α) : Run (World σ) α := Run.on schedulerPart act

/-- A run on the states of the devices alone. -/
def onDevices (act : Run σ α) : Run (World σ) α := Run.on devicesPart act

def register (time : Instant) (device : DeviceId) (tag : Tag) : Run (World σ) Unit :=
  onScheduler (Run.update fun s => s.register time device tag)

def cancel (device : DeviceId) (tag : Tag) : Run (World σ) Bool :=
  onScheduler (modifyGet fun s => s.cancel device tag)

def cancelAll (device : DeviceId) : Run (World σ) Nat :=
  onScheduler (modifyGet fun s => s.cancelAll device)

def isAlive (w : World σ) (device : DeviceId) : Bool :=
  match w.lifetimes[device]? with
  | some l => l.isAlive
  | none => false

/-- Whether the owner still keeps a device. -/
def isOwned (w : World σ) (device : DeviceId) : Bool :=
  match w.lifetimes[device]? with
  | some l => l.owned
  | none => false

/-- Adds a device that its owner keeps. -/
def enroll (ownsSyncPoints : Bool) : Run (World σ) DeviceId := do
  let device := (← get).lifetimes.length
  modify fun w => { w with lifetimes := w.lifetimes ++ [⟨true, 0, ownsSyncPoints⟩] }
  return device

/-- Takes back what a device that has ended still has pending. -/
def bury (device : DeviceId) (w : World σ) : World σ :=
  match w.lifetimes[device]? with
  | some l =>
    if !l.isAlive && l.ownsSyncPoints then
      { w with scheduler := (w.scheduler.cancelAll device).2 }
    else w
  | none => w

/-- A wake-up begins. -/
def retain (device : DeviceId) (w : World σ) : World σ :=
  { w with lifetimes := w.lifetimes.modify device fun l => { l with running := l.running + 1 } }

/-- A wake-up has ended. -/
def release (device : DeviceId) (w : World σ) : World σ :=
  bury device
    { w with lifetimes := w.lifetimes.modify device fun l => { l with running := l.running - 1 } }

/-- The owner gives a device up; answers whether it had kept it until now. -/
def drop (device : DeviceId) : Run (World σ) Bool := do
  match (← get).lifetimes[device]? with
  | some l =>
    if l.owned then
      modify fun w => bury device
        { w with lifetimes := w.lifetimes.modify device fun l => { l with owned := false } }
    return l.owned
  | none => return false

/-- A run during which a device is kept alive, however it ends. -/
def during (device : DeviceId) (act : Run (World σ) α) : Run (World σ) α := do
  modify (retain device)
  Run.ensuring act (release device)

end World
end Timebase
