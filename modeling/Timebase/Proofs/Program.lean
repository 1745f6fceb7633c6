import Timebase.Dispatch.Schedule
import Timebase.Proofs.Run
import Timebase.Proofs.Storage

/-!
# Programs and their histories

A program is whatever the devices and their surroundings do with a world through its operations:
register and take back sync points, give devices up, move time, and have wake-ups delivered, in any
order, from outside or from within a wake-up. The history of a run lists every change it makes to
the world, also those of a run that breaks off.
-/

namespace Timebase

/-- What somebody may ask of a device: to take data, or to give up all that it has. -/
inductive Demand where
  | take (bytes : List UInt8)
  | reset
  deriving DecidableEq, Repr

/-- The bytes that come in with what is asked, if anything is. -/
def Demand.data : Option Demand → List UInt8
  | some (.take bytes) => bytes
  | _ => []

@[simp] theorem Demand.data_none : data none = [] := rfl

@[simp] theorem Demand.data_reset : data (some .reset) = [] := rfl

/-- What may be done with a world: the scheduler is reached through its operations only, the states
of the devices may be changed at will. -/
inductive Program (σ : Type) : Type → Type 1 where
  | done {α : Type} (a : α) : Program σ α
  | halt {α : Type} (cause : Halt) : Program σ α
  | andThen {α β : Type} (p : Program σ α) (next : α → Program σ β) : Program σ β
  | attempt {α : Type} (p : Program σ α) : Program σ (Except Fault α)
  | look {α : Type} (f : World σ → α) : Program σ α
  | work {α : Type} (act : Run σ α) : Program σ α
  /-- Work that a device is asked for, of which the history tells. -/
  | ask {α : Type} (device : DeviceId) (demand : Demand) (act : Run σ α) : Program σ α
  | enroll (ownsSyncPoints : Bool) : Program σ DeviceId
  | drop (device : DeviceId) : Program σ Bool
  /-- Keeps a device alive during a program, unless the device is gone. -/
  | visit (device : DeviceId) (p : Program σ Unit) : Program σ Unit
  | register (time : Instant) (device : DeviceId) (tag : Tag) : Program σ Unit
  | cancel (device : DeviceId) (tag : Tag) : Program σ Bool
  | cancelAll (device : DeviceId) : Program σ Nat
  | setCurrentTime (thread : ThreadId) (time : Instant) : Program σ Unit
  /-- Has wake-ups delivered, each of which is a program in turn. -/
  | schedule (wake : DeviceId → Instant → Tag → Program σ Unit) (steps : Nat) (thread : ThreadId)
      (limit : Instant) : Program σ Unit

/-- What the devices do when they are woken. -/
abbrev Reaction (σ : Type) := DeviceId → Instant → Tag → Program σ Unit

namespace Program

variable {σ α : Type}

def run {α : Type} : Program σ α → Run (World σ) α
  | .done a => pure a
  | .halt cause => fun w => .error cause w
  | .andThen p next => p.run >>= fun a => (next a).run
  | .attempt p => Run.attempt p.run
  | .look f => fun w => .ok (f w) w
  | .work act | .ask _ _ act => World.onDevices act
  | .enroll ownsSyncPoints => World.enroll ownsSyncPoints
  | .drop device => World.drop device
  | .visit device p => fun w => if w.isAlive device then World.during device p.run w else .ok () w
  | .register time device tag => World.register time device tag
  | .cancel device tag => World.cancel device tag
  | .cancelAll device => World.cancelAll device
  | .setCurrentTime thread time => World.onScheduler (Scheduler.setCurrentTime thread time)
  | .schedule wake steps thread limit =>
    World.schedule (fun device time tag => (wake device time tag).run) steps thread limit

/-- The world that a program leaves behind. -/
def after (p : Program σ α) (w : World σ) : World σ := p.run.after w

variable {β : Type} {p : Program σ α} {next : α → Program σ β} {act : Program σ Unit}
  {device : DeviceId} {w v : World σ}

theorem after_andThen_of_ok {a : α} (h : p.run w = .ok a v) :
    (andThen p next).after w = (next a).after (p.after w) := by
  rw [after, after, after, Run.after_of_ok h]
  exact Run.after_congr (Run.bind_of_ok h)

theorem after_andThen_of_error {halt : Halt} (h : p.run w = .error halt v) :
    (andThen p next).after w = p.after w := by
  rw [after, after, Run.after_of_error h]
  exact Run.after_of_error (Run.bind_of_error h)

theorem after_visit_of_alive (h : w.isAlive device = true) :
    (visit device act).after w = (World.during device act.run).after w :=
  Run.after_congr (if_pos h)

theorem after_visit_of_gone (h : w.isAlive device = false) : (visit device act).after w = w :=
  Run.after_of_ok (if_neg (by simp [h]))

end Program

/-- The wake-ups that a reaction stands for. -/
def Reaction.wake {σ : Type} (react : Reaction σ) : Wake σ := fun device time tag =>
  (react device time tag).run

/-- What becomes of sync points in one change of a world, or what a device is asked for. -/
inductive Event where
  | registered (p : SyncPoint)
  /-- Taken back by whoever asked for it. -/
  | cancelled (ps : List SyncPoint)
  /-- Taken back because their device has ended. -/
  | buried (ps : List SyncPoint)
  /-- Taken to wake its device at an instant. -/
  | woken (p : SyncPoint) (time : Instant)
  /-- Taken when its device was gone. -/
  | skipped (p : SyncPoint) (time : Instant)
  | asked (device : DeviceId) (demand : Demand)
  | timeSet
  | silent
  deriving DecidableEq, Repr

namespace Event

def entered : Event → List SyncPoint
  | .registered p => [p]
  | _ => []

def takenBack : Event → List SyncPoint
  | .cancelled ps => ps
  | .buried ps => ps
  | _ => []

def delivered : Event → List SyncPoint
  | .woken p _ => [p]
  | _ => []

def passedOver : Event → List SyncPoint
  | .skipped p _ => [p]
  | _ => []

/-- What a device is asked for, if it is. -/
def demand (device : DeviceId) : Event → Option Demand
  | .asked d demand => if d = device then some demand else none
  | _ => none

/-- What is taken for delivery, whether its device is still there or not. -/
def taken (e : Event) : List SyncPoint := e.delivered ++ e.passedOver

end Event

/-- A change and the world right after it. -/
structure Moment (σ : Type) where
  event : Event
  world : World σ

/-- What the changes of a history tell, in order. -/
def gather {σ β : Type} (f : Event → List β) (ms : List (Moment σ)) : List β :=
  ms.flatMap fun m => f m.event

/-- The bytes that a device is handed in a history. -/
def input {σ : Type} (device : DeviceId) (ms : List (Moment σ)) : List UInt8 :=
  gather (fun e => Demand.data (e.demand device)) ms

/-- The bytes that a device is handed in a history, each with the time that it is then. -/
def inputs {σ : Type} (device : DeviceId) (ms : List (Moment σ)) : List (Instant × UInt8) :=
  ms.flatMap fun m => (Demand.data (m.event.demand device)).map fun byte =>
    (m.world.scheduler.currentTime, byte)

namespace World

variable {σ α : Type}

/-- The world after some moments. -/
def upTo (w : World σ) : List (Moment σ) → World σ
  | [] => w
  | m :: ms => m.world.upTo ms

theorem upTo_append (w : World σ) (ms ns : List (Moment σ)) :
    w.upTo (ms ++ ns) = (w.upTo ms).upTo ns := by
  induction ms generalizing w with
  | nil => rfl
  | cons m ms ih => exact ih m.world

/-- The sync points that a device takes with it if it has ended. -/
def burial (device : DeviceId) (w : World σ) : List SyncPoint :=
  match w.lifetimes[device]? with
  | some l =>
    if !l.isAlive && l.ownsSyncPoints then w.scheduler.queue.filter fun p => p.device == device
    else []
  | none => []

/-- A device loses one of its holds, which may be the last. -/
def loseHold (device : DeviceId) (change : Lifetime → Lifetime) (w : World σ) : List (Moment σ) :=
  let v := { w with lifetimes := w.lifetimes.modify device change }
  [⟨.silent, v⟩, ⟨.buried (v.burial device), v.bury device⟩]

/-- A run that keeps a device alive, given the history of the run. -/
def visitHistory (device : DeviceId) (act : Run (World σ) α) (history : World σ → List (Moment σ))
    (w : World σ) : List (Moment σ) :=
  let v := w.retain device
  ⟨.silent, v⟩ :: history v ++
    loseHold device (fun l => { l with running := l.running - 1 }) (act.after v)

variable (wake : Wake σ) (history : DeviceId → Instant → Tag → World σ → List (Moment σ))

/-- The history of one delivery. -/
def deliverHistory (p : SyncPoint) (time : Instant) (w : World σ) : List (Moment σ) :=
  if w.isAlive p.device then
    ⟨.woken p time, w⟩ ::
      visitHistory p.device (wake p.device time p.tag) (history p.device time p.tag) w
  else [⟨.skipped p time, { w with skipped := w.skipped ++ [⟨p.tag, time⟩] }⟩]

/-- The history of deliveries up to a limit, given those of the wake-ups. -/
def dispatchHistory (limit : Instant) : Nat → World σ → List (Moment σ)
  | 0, _ => []
  | steps + 1, w =>
    match w.scheduler.takeDue limit with
    | (none, _) => []
    | (some (p, time), scheduler) =>
      deliverHistory wake history p time { w with scheduler } ++
        match deliver wake p time { w with scheduler } with
        | .ok _ v => dispatchHistory limit steps v
        | .error _ _ => []

section

variable {wake : Wake σ} {history : DeviceId → Instant → Tag → World σ → List (Moment σ)}
  {limit time : Instant} {steps : Nat} {w v : World σ} {p : SyncPoint} {scheduler : Scheduler}

theorem deliverHistory_of_alive (h : w.isAlive p.device = true) :
    deliverHistory wake history p time w =
      ⟨.woken p time, w⟩ :: ⟨.silent, w.retain p.device⟩ ::
          history p.device time p.tag (w.retain p.device) ++
        loseHold p.device (fun l => { l with running := l.running - 1 })
          ((wake p.device time p.tag).after (w.retain p.device)) := by
  rw [deliverHistory, if_pos h]
  rfl

theorem dispatchHistory_of_none (h : (w.scheduler.takeDue limit).1 = none) :
    dispatchHistory wake history limit (steps + 1) w = [] := by
  rw [dispatchHistory]
  cases hd : w.scheduler.takeDue limit with
  | mk taken scheduler =>
    rw [hd] at h
    cases h
    rfl

theorem dispatchHistory_of_ok (h : w.scheduler.takeDue limit = (some (p, time), scheduler))
    (hp : deliver wake p time { w with scheduler } = .ok () v) :
    dispatchHistory wake history limit (steps + 1) w =
      deliverHistory wake history p time { w with scheduler } ++
        dispatchHistory wake history limit steps v := by
  rw [dispatchHistory, h]
  simp only [hp]

theorem dispatchHistory_of_error {halt : Halt}
    (h : w.scheduler.takeDue limit = (some (p, time), scheduler))
    (hp : deliver wake p time { w with scheduler } = .error halt v) :
    dispatchHistory wake history limit (steps + 1) w =
      deliverHistory wake history p time { w with scheduler } := by
  rw [dispatchHistory, h]
  simp only [hp, List.append_nil]

end

/-- The history of a call that found wake-ups to deliver. -/
def scheduleDueHistory (steps : Nat) (thread : ThreadId) (limit : Instant) (w : World σ) :
    List (Moment σ) :=
  let enter : Run (World σ) Unit := onScheduler (Scheduler.enter thread limit)
  let leave (w : World σ) : Moment σ := ⟨.silent, { w with scheduler := w.scheduler.leave }⟩
  ⟨.silent, enter.after w⟩ ::
    match enter w with
    | .error _ _ => []
    | .ok _ v =>
      dispatchHistory wake history limit steps v ++
        match dispatch wake limit steps v with
        | .error _ u => [leave u]
        | .ok _ u =>
          let u := { u with scheduler := u.scheduler.reach limit }
          [⟨.silent, u⟩, leave u]

/-- The history of a call that moves time to a limit. -/
def scheduleHistory (steps : Nat) (thread : ThreadId) (limit : Instant) (w : World σ) :
    List (Moment σ) :=
  if w.scheduler.isIdleUntil limit then
    [⟨.silent, (onScheduler (Scheduler.idle thread limit)).after w⟩]
  else scheduleDueHistory wake history steps thread limit w

end World

namespace Program

variable {σ α : Type}

/-- Every change that a program makes, in order, and the world after each of them. -/
def history {α : Type} : Program σ α → World σ → List (Moment σ)
  | .done _, _ => []
  | .halt _, _ => []
  | .andThen p next, w =>
    p.history w ++
      match p.run w with
      | .ok a v => (next a).history v
      | .error _ _ => []
  | .attempt p, w => p.history w
  | .look _, _ => []
  | .work act, w => [⟨.silent, (World.onDevices act).after w⟩]
  | .ask device demand act, w => [⟨.asked device demand, (World.onDevices act).after w⟩]
  | .enroll ownsSyncPoints, w => [⟨.silent, (World.enroll ownsSyncPoints).after w⟩]
  | .drop device, w =>
    if w.isOwned device then w.loseHold device fun l => { l with owned := false } else []
  | .visit device p, w => if w.isAlive device then w.visitHistory device p.run p.history else []
  | .register time device tag, w =>
    match w.scheduler.register time device tag with
    | .ok scheduler =>
      [⟨.registered ⟨time, device, tag, w.scheduler.nextSeq⟩, { w with scheduler }⟩]
    | .error _ => []
  | .cancel device tag, w =>
    match w.scheduler.find? device tag with
    | some p => [⟨.cancelled [p], (World.cancel device tag).after w⟩]
    | none => []
  | .cancelAll device, w =>
    [⟨.cancelled (w.scheduler.queue.filter fun p => p.device == device),
      (World.cancelAll device).after w⟩]
  | .setCurrentTime thread time, w =>
    [⟨.timeSet, (World.onScheduler (Scheduler.setCurrentTime thread time)).after w⟩]
  | .schedule wake steps thread limit, w =>
    World.scheduleHistory (fun device time tag => (wake device time tag).run)
      (fun device time tag => (wake device time tag).history) steps thread limit w

/-- Every world that a program passes through, the first and the last included. -/
def worlds (p : Program σ α) (w : World σ) : List (World σ) :=
  w :: (p.history w).map Moment.world

end Program
end Timebase
